import Libquic.Connection.Offer
import Libquic.Endpoint.Cids
import Libquic.Endpoint.ResetTokens
import Libquic.Endpoint.Validation

/-!
# Packets without a connection

`handle_packet` looks for the connection of a packet by its destination id and, failing that, by a
stateless reset token at its end. A packet that belongs to none may start a connection. Any other
is answered without one: with a version negotiation, Retry or close packet, or with a stateless
reset, by which a peer learns that its connection is gone.

Such answers may reach an endpoint that does not know them either and answers them in turn. What
ngtcp2 reads from a packet and what it writes are parameters. It is assumed that an answer that it
wrote starts no connection (a close packet is an Initial one, but too small) and does not ask for a
version negotiation, and that a stateless reset ends in its token and has a destination id.
-/
namespace Libquic

open Lib

variable {Addr T τ : Type}

/-- `MIN_STATELESS_RESET_SIZE` -/
def minStatelessResetSize : Nat := 41

/-- `NGTCP2_STATELESS_RESET_TOKENLEN` -/
def statelessResetTokenlen : Nat := 16

/-- `NGTCP2_MAX_CIDLEN` -/
def maxCidlen : Nat := 20

/-- What `ngtcp2_pkt_decode_version_cid` finds: a version that is not supported, an error, or a
destination id. -/
inductive Decoded where
  | versionNegotiation | invalid
  | dcid (cid : Bytes)
  deriving DecidableEq, Repr

/-- The functions of ngtcp2. Those that write may fail. -/
structure Codec (Addr T : Type) extends TokenCrypto Addr T where
  decodeVersionCid : Bytes → Decoded
  /-- `ngtcp2_accept`, for an Initial packet -/
  accept : Addr → Bytes → Option (Initial Addr T)
  writeVersionNegotiation : Bytes → Option Bytes
  writeRetry : Retry T → Option Bytes
  writeConnectionClose : Initial Addr T → Option Bytes
  /-- `ngtcp2_pkt_write_stateless_reset`, into a buffer of that size -/
  writeStatelessReset (size : Nat) (token random : Bytes) : Option Bytes

namespace Codec

/-- A packet that is written for one that has no connection. -/
inductive Answer (codec : Codec Addr T) : Bytes → Prop where
  | versionNegotiation {pkt data : Bytes} :
      codec.writeVersionNegotiation pkt = some data → Answer codec data
  | retry {packet : Retry T} {data : Bytes} :
      codec.writeRetry packet = some data → Answer codec data
  | close {hdr : Initial Addr T} {data : Bytes} :
      codec.writeConnectionClose hdr = some data → Answer codec data
  | reset {size : Nat} {token random data : Bytes} :
      codec.writeStatelessReset size token random = some data → Answer codec data

/-- What is written fits the buffer, and what is an answer gets no other answer than a stateless
reset. A stateless reset that is large enough is written, with the token at its end, and read as a
packet with a destination id. -/
structure Lawful (codec : Codec Addr T) : Prop where
  versionNegotiation : ∀ pkt data, codec.writeVersionNegotiation pkt = some data →
    data.length ≤ maxPmtudUdpPayload
  retry : ∀ packet data, codec.writeRetry packet = some data → data.length ≤ maxPmtudUdpPayload
  close : ∀ hdr data, codec.writeConnectionClose hdr = some data →
    data.length ≤ maxPmtudUdpPayload
  reset : ∀ token random, token.length = statelessResetTokenlen →
    minStatelessResetSize ≤ random.length + token.length →
    ∃ data cid, codec.writeStatelessReset (random.length + token.length) token random = some data ∧
      data.length = random.length + token.length ∧ data.drop random.length = token ∧
      codec.decodeVersionCid data = .dcid cid ∧ cid.length ≤ maxCidlen
  decode : ∀ data, codec.Answer data → codec.decodeVersionCid data ≠ .versionNegotiation
  accept : ∀ data, codec.Answer data → ∀ remote, codec.accept remote data = none

end Codec

/-- What is drawn at random for one packet. -/
structure Draws where
  scid : Bytes
  /-- For the token of a Retry packet. -/
  token : Bytes
  reduce : Nat
  random : Nat → UInt8

/-- What an endpoint decides by. Its secret gives a reset token for each id, and a hash of each
token that it is told. -/
structure Dispatcher (Addr T τ : Type) where
  tables : Tables Bytes τ
  acceptingInbound : Bool
  server : ValidatingServer Addr T
  generateResetToken : Bytes → Bytes
  hashResetToken : Bytes → τ
  length_token : ∀ cid, (generateResetToken cid).length = statelessResetTokenlen

/-- What becomes of a packet. An answer is missing if it cannot be written, or for a stateless reset
if the packet is too small. -/
inductive Handled where
  | ignored
  | conn (rid : Nat)
  | accepted (params : InboundParams)
  | versionNegotiation (answer : Option Bytes)
  | retry (answer : Option Bytes)
  | close (answer : Option Bytes)
  | reset (answer : Option Bytes)
  deriving DecidableEq, Repr

def Handled.answer : Handled → Option Bytes
  | .ignored | .conn _ | .accepted _ => none
  | .versionNegotiation answer | .retry answer | .close answer | .reset answer => answer

namespace Dispatcher

/-- By how much a stateless reset is smaller than the packet that it answers. -/
def reduction (draws : Draws) (size : Nat) : Nat :=
  let maxReduction := size - minStatelessResetSize
  if 1 < maxReduction then 1 + draws.reduce % maxReduction else 1

def sendStatelessReset (codec : Codec Addr T) (draws : Draws) (size : Nat) (cid : Bytes)
    (ep : Dispatcher Addr T τ) : Option Bytes :=
  if size ≤ minStatelessResetSize then none
  else
    let bufSize := size - reduction draws size
    codec.writeStatelessReset bufSize (ep.generateResetToken cid)
      ((List.range (bufSize - statelessResetTokenlen)).map draws.random)

/-- The header of an Initial packet that may start a connection. -/
def initialOf (codec : Codec Addr T) (remote : Addr) (data : Bytes) (ep : Dispatcher Addr T τ) :
    Option (Initial Addr T) :=
  if ep.acceptingInbound then codec.accept remote data else none

variable [DecidableEq τ]

/-- `accept_initial_connection`, where the packet is an Initial one. -/
def acceptInitialConnection (codec : Codec Addr T) (draws : Draws) (hdr : Initial Addr T)
    (ep : Dispatcher Addr T τ) : Handled :=
  match ep.server.judge codec.toTokenCrypto hdr draws.scid draws.token with
  | .accept params => .accepted params
  | .retry packet => .retry (codec.writeRetry packet)
  | .close => .close (codec.writeConnectionClose hdr)

/-- `check_stateless_reset` -/
def checkStatelessReset (data : Bytes) (ep : Dispatcher Addr T τ) : Option Nat :=
  if data.length < statelessResetTokenlen then none
  else (ep.tables.checkStatelessReset
    (ep.hashResetToken (data.drop (data.length - statelessResetTokenlen)))).1

/-- `handle_packet`, up to the connection, without what it changes in the tables. -/
def handlePacket (codec : Codec Addr T) (draws : Draws) (remote : Addr) (data : Bytes)
    (ep : Dispatcher Addr T τ) : Handled :=
  match codec.decodeVersionCid data with
  | .versionNegotiation => .versionNegotiation (codec.writeVersionNegotiation data)
  | .invalid => .ignored
  | .dcid cid =>
    if maxCidlen < cid.length then .ignored
    else match (ep.tables.fetchAssociatedConn cid).1 with
      | some rid => .conn rid
      | none =>
        match ep.initialOf codec remote data with
        | some hdr => ep.acceptInitialConnection codec draws hdr
        | none =>
          match ep.checkStatelessReset data with
          | some rid => .conn rid
          | none => .reset (ep.sendStatelessReset codec draws data.length cid)

/-! ## One answer -/

variable {codec : Codec Addr T} {draws : Draws} {ep : Dispatcher Addr T τ} {remote : Addr}
  {data answer cid : Bytes}

theorem reduction_bounds (draws : Draws) {size : Nat} (h : minStatelessResetSize < size) :
    1 ≤ reduction draws size ∧ reduction draws size ≤ size - minStatelessResetSize := by
  unfold reduction
  dsimp only
  split_ifs with hmax
  · have := Nat.mod_lt draws.reduce (Nat.lt_trans Nat.zero_lt_one hmax)
    omega
  · omega

omit [DecidableEq τ] in
/-- A stateless reset is smaller than the packet, ends in the token of the id, and is read as a
packet for some connection. -/
theorem sendStatelessReset_of_lt (hcodec : codec.Lawful) (draws : Draws) (ep : Dispatcher Addr T τ)
    (cid : Bytes) {size : Nat} (h : minStatelessResetSize < size) :
    ∃ answer other, ep.sendStatelessReset codec draws size cid = some answer ∧
      codec.Answer answer ∧ minStatelessResetSize ≤ answer.length ∧ answer.length < size ∧
      answer.drop (answer.length - statelessResetTokenlen) = ep.generateResetToken cid ∧
      codec.decodeVersionCid answer = .dcid other ∧ other.length ≤ maxCidlen := by
  have hreduction := reduction_bounds draws h
  have htoken := ep.length_token cid
  have hbuf : statelessResetTokenlen ≤ size - reduction draws size := by
    unfold minStatelessResetSize statelessResetTokenlen at *
    omega
  generalize hrandom : (List.range (size - reduction draws size - statelessResetTokenlen)).map
    draws.random = random
  have hlength : random.length + (ep.generateResetToken cid).length =
      size - reduction draws size := by
    rw [← hrandom, htoken, List.length_map, List.length_range]
    omega
  obtain ⟨data, other, hwrite, hdata, hdrop, hdecoded, hother⟩ :=
    hcodec.reset _ random htoken (by omega)
  refine ⟨data, other, ?_, .reset hwrite, by omega, by omega, ?_, hdecoded, hother⟩
  · unfold sendStatelessReset
    rw [if_neg (Nat.not_le.mpr h)]
    dsimp only
    rw [hrandom, ← hlength]
    exact hwrite
  · rw [hdata, htoken, Nat.add_sub_cancel]
    exact hdrop

omit [DecidableEq τ] in
theorem sendStatelessReset_spec (hcodec : codec.Lawful) {size : Nat}
    (h : ep.sendStatelessReset codec draws size cid = some answer) :
    codec.Answer answer ∧ minStatelessResetSize ≤ answer.length ∧ answer.length < size := by
  have hsize : minStatelessResetSize < size := by
    unfold sendStatelessReset at h
    split_ifs at h with hle
    exact Nat.not_le.mp hle
  obtain ⟨data, other, hsent, hanswer, hmin, hlt, -⟩ :=
    sendStatelessReset_of_lt hcodec draws ep cid hsize
  cases h.symm.trans hsent
  exact ⟨hanswer, hmin, hlt⟩

/-- Where an answer comes from. -/
theorem handlePacket_answer
    (h : (ep.handlePacket codec draws remote data).answer = some answer) :
    codec.decodeVersionCid data = .versionNegotiation ∧
      codec.writeVersionNegotiation data = some answer ∨
    (∃ hdr, codec.accept remote data = some hdr ∧
      ((∃ packet, codec.writeRetry packet = some answer) ∨
        codec.writeConnectionClose hdr = some answer)) ∨
    ∃ cid, ep.sendStatelessReset codec draws data.length cid = some answer := by
  unfold handlePacket at h
  split at h
  next hdecoded => exact .inl ⟨hdecoded, h⟩
  next => cases h
  next cid _ =>
    split_ifs at h
    · cases h
    split at h
    next => cases h
    next =>
      split at h
      next hdr hinitial =>
        have haccept : codec.accept remote data = some hdr := by
          unfold initialOf at hinitial
          split_ifs at hinitial
          exact hinitial
        unfold acceptInitialConnection at h
        split at h
        next => cases h
        next packet _ => exact .inr (.inl ⟨hdr, haccept, .inl ⟨packet, h⟩⟩)
        next => exact .inr (.inl ⟨hdr, haccept, .inr h⟩)
      next =>
        split at h
        next => cases h
        next => exact .inr (.inr ⟨cid, h⟩)

/-- Whatever is sent is an answer, and no larger than the packet or the buffer. -/
theorem answer_le (hcodec : codec.Lawful)
    (h : (ep.handlePacket codec draws remote data).answer = some answer) :
    codec.Answer answer ∧ answer.length ≤ max data.length maxPmtudUdpPayload := by
  rcases handlePacket_answer h with
    ⟨-, hwrite⟩ | ⟨hdr, -, ⟨packet, hwrite⟩ | hwrite⟩ | ⟨cid, hreset⟩
  · exact ⟨.versionNegotiation hwrite, le_max_of_le_right (hcodec.versionNegotiation _ _ hwrite)⟩
  · exact ⟨.retry hwrite, le_max_of_le_right (hcodec.retry _ _ hwrite)⟩
  · exact ⟨.close hwrite, le_max_of_le_right (hcodec.close _ _ hwrite)⟩
  · obtain ⟨hanswer, -, hlt⟩ := sendStatelessReset_spec hcodec hreset
    exact ⟨hanswer, le_max_of_le_left hlt.le⟩

/-- An answer is answered by something smaller, if at all. -/
theorem answer_lt (hcodec : codec.Lawful) (hdata : codec.Answer data)
    (h : (ep.handlePacket codec draws remote data).answer = some answer) :
    minStatelessResetSize ≤ answer.length ∧ answer.length < data.length := by
  rcases handlePacket_answer h with ⟨hdecoded, -⟩ | ⟨hdr, haccept, -⟩ | ⟨cid, hreset⟩
  · exact absurd hdecoded (hcodec.decode data hdata)
  · simp [hcodec.accept data hdata remote] at haccept
  · exact (sendStatelessReset_spec hcodec hreset).2

/-! ## A connection that is gone -/

/-- The packet belongs to no connection, and starts none. -/
structure Unknown (codec : Codec Addr T) (remote : Addr) (data cid : Bytes)
    (ep : Dispatcher Addr T τ) : Prop where
  decoded : codec.decodeVersionCid data = .dcid cid
  length_le : cid.length ≤ maxCidlen
  fetched : (ep.tables.fetchAssociatedConn cid).1 = none
  initial : ep.initialOf codec remote data = none

theorem Unknown.handlePacket_eq (h : ep.Unknown codec remote data cid) :
    ep.handlePacket codec draws remote data =
      match ep.checkStatelessReset data with
      | some rid => .conn rid
      | none => .reset (ep.sendStatelessReset codec draws data.length cid) := by
  unfold handlePacket
  simp only [h.decoded, h.fetched, h.initial, Nat.not_lt.mpr h.length_le, if_false]

/-- An endpoint that does not know a connection, but has the secret of the one that did, answers
every packet for it that is large enough, starts no connection and has no reset token that the
endpoint knows, and does so with a smaller packet. The peer takes that for the connection on which
it was told the id's token, unless it reads the id of another connection in it. -/
theorem reset_recognised (draws : Draws) {server client : Dispatcher Addr T τ}
    {x : TableRun Bytes τ} {rid : Nat}
    (hcodec : codec.Lawful) (hunknown : server.Unknown codec remote data cid)
    (hno : server.checkStatelessReset data = none) (hsize : minStatelessResetSize < data.length)
    (hrun : (TableRun.keeping Bytes
      (client.hashResetToken (server.generateResetToken cid))).Reachable x)
    (hclient : client.tables = x.tables)
    (hactive : x.tables.Active rid (client.hashResetToken (server.generateResetToken cid))) :
    ∃ answer other, server.handlePacket codec draws remote data = .reset (some answer) ∧
      minStatelessResetSize ≤ answer.length ∧ answer.length < data.length ∧
      codec.decodeVersionCid answer = .dcid other ∧
      ((client.tables.fetchAssociatedConn other).1 = none → ∀ (addr : Addr) (later : Draws),
        ∃ owner, client.handlePacket codec later addr answer = .conn owner ∧
          client.tables.Active owner
            (client.hashResetToken (server.generateResetToken cid))) := by
  obtain ⟨answer, other, hsent, hanswer, hmin, hlt, hdrop, hdecoded, hother⟩ :=
    sendStatelessReset_of_lt hcodec draws server cid hsize
  refine ⟨answer, other, by rw [hunknown.handlePacket_eq, hno, hsent], hmin, hlt, hdecoded, ?_⟩
  intro hfetched addr later
  have hinitial : client.initialOf codec addr answer = none := by
    unfold initialOf
    rw [hcodec.accept _ hanswer, ite_self]
  have hreset : client.Unknown codec addr answer other :=
    ⟨hdecoded, hother, hfetched, hinitial⟩
  have howned := (TableRun.inductive_owned.reachable (TableRun.reachable_of_keeping hrun)).2
  obtain ⟨owner, hentry, howner⟩ := TableRun.mapped_of_keeping hrun rid hactive
  have hcheck : client.checkStatelessReset answer = some owner := by
    have hlong : ¬ answer.length < statelessResetTokenlen := by
      unfold minStatelessResetSize statelessResetTokenlen at *
      omega
    rw [checkStatelessReset, if_neg hlong, hdrop, hclient,
      Tables.checkStatelessReset_owned howned, hentry]
  refine ⟨owner, ?_, hclient ▸ howner⟩
  rw [hreset.handlePacket_eq, hcheck]

/-! ## A codec for headers

It reads headers as they are on the wire, and writes version negotiation packets and stateless
resets. Retry and close packets it fails to write.
-/

/-- A long header: its first byte, the version, the two ids and what follows. -/
structure LongHeader where
  first : UInt8
  version : Bytes
  dcid : Bytes
  scid : Bytes
  rest : Bytes

/-- An id after its length. -/
def readCid : Bytes → Option (Bytes × Bytes)
  | [] => none
  | len :: rest =>
    if rest.length < len.toNat then none else some (rest.take len.toNat, rest.drop len.toNat)

def readLongHeader : Bytes → Option LongHeader
  | first :: v1 :: v2 :: v3 :: v4 :: rest =>
    if first < 128 then none
    else do
      let (dcid, rest) ← readCid rest
      let (scid, rest) ← readCid rest
      some ⟨first, [v1, v2, v3, v4], dcid, scid, rest⟩
  | _ => none

def quicVersion1 : Bytes := [0, 0, 0, 1]

/-- A packet with a version that is not supported gets an answer only if it is as large as an
Initial packet. The version of a version negotiation packet is 0. -/
def decodeHeader (data : Bytes) : Decoded :=
  match data with
  | [] => .invalid
  | first :: rest =>
    if first < 128 then if rest.length < maxCidlen then .invalid else .dcid (rest.take maxCidlen)
    else
      match readLongHeader data with
      | none => .invalid
      | some hd =>
        if hd.version = [0, 0, 0, 0] ∨ hd.version = quicVersion1 then .dcid hd.dcid
        else if data.length < 1200 then .invalid
        else .versionNegotiation

/-- An Initial packet has at least 1200 bytes. Tokens of 64 bytes or more are not read. -/
def readInitial {Addr : Type} (remote : Addr) (data : Bytes) : Option (Initial Addr (Token Addr)) :=
  match readLongHeader data with
  | none => none
  | some hd =>
    if hd.version = quicVersion1 ∧ hd.first.toNat / 16 = 12 ∧ 1200 ≤ data.length then
      match hd.rest with
      | tokenlen :: token =>
        if 64 ≤ tokenlen ∨ token.length < tokenlen.toNat then none
        else some ⟨remote, 1, hd.dcid, hd.scid, (token.take tokenlen.toNat).head?.map fun first =>
          .raw (if first = 182 then .retry else if first = 54 then .regular else .other)⟩
      | [] => none
    else none

/-- The ids change sides. -/
def versionNegotiationFor (data : Bytes) : Option Bytes :=
  (readLongHeader data).map fun hd => [192, 0, 0, 0, 0] ++ UInt8.ofNat hd.scid.length :: hd.scid ++
    UInt8.ofNat hd.dcid.length :: hd.dcid ++ quicVersion1

/-- The first bit says that the header is a short one, and the second is set. -/
def withShortHeader : Bytes → Bytes
  | [] => []
  | first :: rest => (first % 64 + 64) :: rest

/-- There must be five random bytes. -/
def statelessReset (size : Nat) (token random : Bytes) : Option Bytes :=
  if size < 5 + statelessResetTokenlen ∨ random.length < 5 then none
  else some (withShortHeader (random.take (size - statelessResetTokenlen)) ++ token)

def headerCodec : Codec Bool (Token Bool) where
  toTokenCrypto := Token.crypto (· == ·)
  decodeVersionCid := decodeHeader
  accept := readInitial
  writeVersionNegotiation := versionNegotiationFor
  writeRetry _ := none
  writeConnectionClose _ := none
  writeStatelessReset := statelessReset

theorem readCid_length {data cid rest : Bytes} (h : readCid data = some (cid, rest)) :
    cid.length < 256 := by
  unfold readCid at h
  split at h
  next => cases h
  next len _ =>
    split_ifs at h
    cases h
    have hlen := len.toNat_lt
    simp only [List.length_take]
    omega

theorem readLongHeader_spec {data : Bytes} {hd : LongHeader} (h : readLongHeader data = some hd) :
    ∃ rest, data = hd.first :: hd.version ++ rest ∧ ¬ hd.first < 128 ∧ hd.version.length = 4 ∧
      hd.dcid.length < 256 ∧ hd.scid.length < 256 := by
  unfold readLongHeader at h
  split at h
  next first v1 v2 v3 v4 rest =>
    split_ifs at h with hfirst
    obtain ⟨⟨dcid, rest'⟩, hdcid, h⟩ := Option.bind_eq_some_iff.mp h
    obtain ⟨⟨scid, rest''⟩, hscid, h⟩ := Option.bind_eq_some_iff.mp h
    cases h
    exact ⟨rest, rfl, hfirst, rfl, readCid_length hdcid, readCid_length hscid⟩
  next => cases h

/-- A version negotiation packet has version 0. -/
theorem versionNegotiationFor_spec {data answer : Bytes}
    (h : versionNegotiationFor data = some answer) :
    answer.length ≤ maxPmtudUdpPayload ∧
      ∀ hd, readLongHeader answer = some hd → hd.version = [0, 0, 0, 0] := by
  obtain ⟨hd, hhd, rfl⟩ := Option.map_eq_some_iff.mp h
  obtain ⟨-, -, -, -, hdcid, hscid⟩ := readLongHeader_spec hhd
  constructor
  · simp only [List.length_append, List.length_cons, List.length_nil, quicVersion1,
      maxPmtudUdpPayload]
    omega
  · intro hd' hhd'
    obtain ⟨rest, heq, -, hlen, -⟩ := readLongHeader_spec hhd'
    have hversion : (hd'.version ++ rest).take 4 = hd'.version := List.take_left' hlen
    have htail : _ = hd'.version ++ rest := (List.cons.inj heq).2
    rw [← hversion, ← htail]
    rfl

theorem withShortHeader_lt (first : UInt8) : first % 64 + 64 < 128 := by
  rw [UInt8.lt_iff_toNat_lt]
  simp
  omega

/-- A stateless reset has a short header. -/
theorem statelessReset_spec {size : Nat} {token random answer : Bytes}
    (h : statelessReset size token random = some answer) :
    ∃ first rest, answer = first :: rest ∧ first < 128 := by
  unfold statelessReset at h
  split_ifs at h with hsmall
  cases h
  have hne : random.take (size - statelessResetTokenlen) ≠ [] := by
    rw [← List.length_pos_iff_ne_nil, List.length_take]
    omega
  obtain ⟨first, rest, heq⟩ := List.exists_cons_of_ne_nil hne
  rw [heq]
  exact ⟨_, _, rfl, withShortHeader_lt first⟩

theorem readLongHeader_short {first : UInt8} (h : first < 128) (rest : Bytes) :
    readLongHeader (first :: rest) = none := by
  unfold readLongHeader
  split
  next heq =>
    cases heq
    rw [if_pos h]
  next => rfl

theorem lawful_headerCodec : headerCodec.Lawful where
  versionNegotiation _ _ h := (versionNegotiationFor_spec h).1
  retry _ _ h := by cases h
  close _ _ h := by cases h
  reset token random htoken hsize := by
    unfold minStatelessResetSize at hsize
    obtain ⟨first, rest, rfl⟩ : ∃ first rest, random = first :: rest := by
      refine List.exists_cons_of_ne_nil ?_
      rintro rfl
      simp [htoken, statelessResetTokenlen] at hsize
    have hwrite : statelessReset ((first :: rest).length + token.length) token (first :: rest) =
        some (withShortHeader (first :: rest) ++ token) := by
      have hlarge : ¬ ((first :: rest).length + token.length < 5 + statelessResetTokenlen ∨
          (first :: rest).length < 5) := by
        unfold statelessResetTokenlen at *
        omega
      rw [statelessReset, if_neg hlarge, htoken, Nat.add_sub_cancel, List.take_length]
    have hlong : ¬ (rest ++ token).length < maxCidlen := by
      rw [List.length_append]
      rw [List.length_cons] at hsize
      unfold maxCidlen
      omega
    have hdecode : decodeHeader (withShortHeader (first :: rest) ++ token) =
        .dcid ((rest ++ token).take maxCidlen) := by
      have hlt := withShortHeader_lt first
      simp only [decodeHeader, withShortHeader, List.cons_append, if_pos hlt, if_neg hlong]
    refine ⟨_, _, hwrite, ?_, List.drop_left, hdecode, List.length_take_le ..⟩
    rw [List.length_append]
    rfl
  decode data h := by
    change decodeHeader data ≠ .versionNegotiation
    unfold decodeHeader
    cases h with
    | versionNegotiation h =>
      have hzero := (versionNegotiationFor_spec h).2
      grind
    | retry h => cases h
    | close h => cases h
    | reset h =>
      obtain ⟨first, rest, rfl, hfirst⟩ := statelessReset_spec h
      simp only [if_pos hfirst]
      split_ifs <;> simp
  accept data h remote := by
    change readInitial remote data = none
    unfold readInitial
    cases h with
    | versionNegotiation h =>
      have hzero := (versionNegotiationFor_spec h).2
      cases hread : readLongHeader data with
      | none => rfl
      | some hd => simp [hzero hd hread, quicVersion1]
    | retry h => cases h
    | close h => cases h
    | reset h =>
      obtain ⟨first, rest, rfl, hfirst⟩ := statelessReset_spec h
      rw [readLongHeader_short hfirst]

/-- An endpoint without connections. -/
def fresh : Dispatcher Bool (Token Bool) Bytes where
  tables := {}
  acceptingInbound := true
  server := { secret := [7] }
  generateResetToken _ := List.replicate 16 7
  hashResetToken token := token
  length_token _ := rfl

/-- A connection that was told a token is reset by the fresh endpoint. -/
theorem reset_recognised_fresh :
    ∃ client : Dispatcher Bool (Token Bool) Bytes,
      client.tables.Active 1 (List.replicate 16 7) ∧
      ∃ answer, fresh.handlePacket headerCodec ⟨[], [], 3, fun _ => 5⟩ true
          (64 :: List.replicate 49 1) = .reset (some answer) ∧
        ∃ owner, client.handlePacket headerCodec ⟨[], [], 0, fun _ => 0⟩ false answer =
            .conn owner ∧
          client.tables.Active owner (List.replicate 16 7) := by
  have hstart : (TableRun.keeping Bytes (List.replicate 16 (7 : UInt8))).Reachable {} :=
    .initial rfl
  have hconnected := hstart.step (i := .connect [[9]] false)
    ⟨by decide, by simp [Tables.Releases]⟩ rfl
  have hrun := hconnected.step (i := .activate 1 (List.replicate 16 7))
    ⟨by decide, by simp [Tables.Releases]⟩ rfl
  have hunknown : fresh.Unknown headerCodec true (64 :: List.replicate 49 1)
      (List.replicate 20 1) := ⟨by decide, by decide, by decide, by decide⟩
  generalize hx : TableRun.mk _ _ = x at hrun
  let client : Dispatcher Bool (Token Bool) Bytes := { fresh with tables := x.tables }
  have hactive : x.tables.Active 1 (List.replicate 16 7) := by
    subst hx
    exact ⟨_, rfl, by decide⟩
  obtain ⟨answer, other, hreset, -, -, hdecoded, hclient⟩ :=
    reset_recognised ⟨[], [], 3, fun _ => 5⟩ lawful_headerCodec hunknown (by decide) (by decide)
      hrun (rfl : client.tables = x.tables) hactive
  have hother : other = List.replicate 20 5 := by
    have hsent : fresh.handlePacket headerCodec ⟨[], [], 3, fun _ => 5⟩ true
        (64 :: List.replicate 49 1) =
        .reset (some (69 :: List.replicate 29 5 ++ List.replicate 16 7)) := by decide
    cases hsent.symm.trans hreset
    exact (Decoded.dcid.inj hdecoded).symm
  refine ⟨client, hactive, answer, hreset, hclient ?_ false _⟩
  subst hx hother
  decide

end Dispatcher

/-! ## Endpoints that answer each other -/

/-- A packet on its way. -/
structure Datagram (Addr : Type) where
  src : Addr
  dst : Addr
  data : Bytes
  /-- Whether `handle_packet` sent it. -/
  answer : Bool

/-- How often a packet of that size, and what is sent because of it, can arrive. -/
def arrivalsOf (size : Nat) : Nat := max size maxPmtudUdpPayload - minStatelessResetSize + 2

/-- How often the packet, and what is sent because of it, can arrive. -/
def Datagram.weight (d : Datagram Addr) : Nat :=
  if d.answer then d.data.length - minStatelessResetSize + 1 else arrivalsOf d.data.length

structure Network (Addr T τ : Type) where
  endpoints : Addr → Option (Dispatcher Addr T τ)
  inFlight : List (Datagram Addr) := []
  /-- The sizes of the packets that are no answers. -/
  sent : List Nat := []
  /-- How many packets have arrived. -/
  arrived : Nat := 0

namespace Network

inductive Op (Addr T τ : Type) where
  /-- Anyone sends a packet. -/
  | send (src dst : Addr) (data : Bytes)
  | deliver (k : Nat) (draws : Draws)
  | lose (k : Nat)
  /-- An endpoint makes or ends connections, or is stopped or started. -/
  | change (addr : Addr) (ep : Option (Dispatcher Addr T τ))

def weight (packets : List (Datagram Addr)) : Nat := (packets.map Datagram.weight).sum

theorem weight_append (xs ys : List (Datagram Addr)) :
    weight (xs ++ ys) = weight xs + weight ys := by
  simp [weight]

theorem weight_eraseIdx {packets : List (Datagram Addr)} {k : Nat} {d : Datagram Addr}
    (h : packets[k]? = some d) : weight (packets.eraseIdx k) + d.weight = weight packets := by
  obtain ⟨hk, rfl⟩ := List.getElem?_eq_some_iff.mp h
  have hperm := (List.getElem_cons_eraseIdx_perm hk).map Datagram.weight
  have hsum := hperm.sum_eq
  simp only [List.map_cons, List.sum_cons] at hsum
  unfold weight
  omega

/-- Every packet on its way can arrive. -/
theorem length_le_weight (packets : List (Datagram Addr)) : packets.length ≤ weight packets := by
  induction packets with
  | nil => exact Nat.zero_le _
  | cons d packets ih =>
    have hpos : 1 ≤ d.weight := by
      unfold Datagram.weight arrivalsOf
      split <;> omega
    rw [← List.singleton_append, weight_append, List.length_append]
    simp only [weight, List.map_cons, List.map_nil, List.sum_cons, List.sum_nil,
      List.length_singleton] at *
    omega

variable [DecidableEq Addr] [DecidableEq τ]

/-- The answer to a packet that arrives. -/
def answerTo (codec : Codec Addr T) (draws : Draws) (d : Datagram Addr) (s : Network Addr T τ) :
    List (Datagram Addr) :=
  match s.endpoints d.dst with
  | none => []
  | some ep =>
    match (ep.handlePacket codec draws d.src d.data).answer with
    | none => []
    | some answer => [⟨d.dst, d.src, answer, true⟩]

def step (codec : Codec Addr T) (s : Network Addr T τ) :
    Op Addr T τ → Except Fault (Network Addr T τ)
  | .send src dst data =>
    .ok { s with
      inFlight := s.inFlight ++ [⟨src, dst, data, false⟩]
      sent := s.sent ++ [data.length] }
  | .deliver k draws =>
    match s.inFlight[k]? with
    | none => .error .outOfRange
    | some d =>
      .ok { s with
        inFlight := s.inFlight.eraseIdx k ++ s.answerTo codec draws d
        arrived := s.arrived + 1 }
  | .lose k => .ok { s with inFlight := s.inFlight.eraseIdx k }
  | .change addr ep => .ok { s with endpoints := Function.update s.endpoints addr ep }

def Enabled (s : Network Addr T τ) : Op Addr T τ → Prop
  | .deliver k _ | .lose k => k < s.inFlight.length
  | .send .. | .change .. => True

def machine (codec : Codec Addr T) : Machine (Network Addr T τ) (Op Addr T τ) Fault where
  initial s := s.inFlight = [] ∧ s.sent = [] ∧ s.arrived = 0
  enabled := Enabled
  step := step codec

instance (codec : Codec Addr T) (s : Network Addr T τ) :
    ∀ op, Decidable ((machine codec).enabled s op)
  | .deliver k _ | .lose k => inferInstanceAs (Decidable (k < s.inFlight.length))
  | .send .. | .change .. => inferInstanceAs (Decidable True)

variable {codec : Codec Addr T} {s : Network Addr T τ}

/-- What is marked as an answer is one, and the packets sent pay for all that arrive. -/
structure Inv (codec : Codec Addr T) (s : Network Addr T τ) : Prop where
  answers : ∀ d ∈ s.inFlight, d.answer = true → codec.Answer d.data
  used : s.arrived + weight s.inFlight ≤ (s.sent.map arrivalsOf).sum

omit [DecidableEq Addr] in
theorem answerTo_spec (hcodec : codec.Lawful) (s : Network Addr T τ) (draws : Draws)
    (d : Datagram Addr) (hd : d.answer = true → codec.Answer d.data) :
    (∀ a ∈ s.answerTo codec draws d, codec.Answer a.data) ∧
      weight (s.answerTo codec draws d) + 1 ≤ d.weight := by
  have hpos := length_le_weight [d]
  unfold answerTo
  split
  next => simpa [weight] using hpos
  next ep _ =>
    split
    next => simpa [weight] using hpos
    next answer hanswer =>
      obtain ⟨hwritten, hle⟩ := Dispatcher.answer_le hcodec hanswer
      refine ⟨by simpa using hwritten, ?_⟩
      cases hmark : d.answer with
      | false =>
        simp only [weight, Datagram.weight, arrivalsOf, hmark, List.map_cons, List.map_nil,
          List.sum_cons, List.sum_nil, if_true, Bool.false_eq_true, if_false]
        omega
      | true =>
        obtain ⟨hmin, hlt⟩ := Dispatcher.answer_lt hcodec (hd hmark) hanswer
        simp only [weight, Datagram.weight, hmark, List.map_cons, List.map_nil, List.sum_cons,
          List.sum_nil, if_true]
        omega

theorem Inv.step (hcodec : codec.Lawful) (h : Inv codec s) {op : Op Addr T τ} (he : s.Enabled op) :
    ∃ t, Network.step codec s op = .ok t ∧ Inv codec t := by
  cases op with
  | send src dst data =>
    refine ⟨_, rfl, ?_, ?_⟩
    · intro d hd hmark
      rcases List.mem_append.mp hd with hold | hnew
      · exact h.answers d hold hmark
      · cases List.mem_singleton.mp hnew
        cases hmark
    · have hused := h.used
      simp only [weight_append, List.map_append, List.sum_append, List.map_cons, List.map_nil,
        List.sum_cons, List.sum_nil]
      simp only [weight, Datagram.weight, List.map_cons, List.map_nil, List.sum_cons,
        List.sum_nil, Bool.false_eq_true, if_false] at *
      omega
  | deliver k draws =>
    have hk := List.getElem?_eq_getElem he
    obtain ⟨hanswers, hweight⟩ := answerTo_spec hcodec s draws s.inFlight[k]
      (h.answers _ (List.getElem_mem he))
    refine ⟨_, by simp only [Network.step, hk]; rfl, ?_, ?_⟩
    · intro d hd hmark
      rcases List.mem_append.mp hd with hold | hnew
      · exact h.answers d (List.mem_of_mem_eraseIdx hold) hmark
      · exact hanswers d hnew
    · have hused := h.used
      have herase := weight_eraseIdx hk
      simp only [weight_append]
      omega
  | lose k =>
    have herase := weight_eraseIdx (List.getElem?_eq_getElem he)
    refine ⟨_, rfl, fun d hd => h.answers d (List.mem_of_mem_eraseIdx hd), ?_⟩
    have hused := h.used
    dsimp only
    omega
  | change addr ep => exact ⟨_, rfl, h.answers, h.used⟩

theorem inductive_inv (hcodec : codec.Lawful) :
    (machine (τ := τ) codec).Inductive (Inv codec) where
  initial s hs := by
    obtain ⟨hflight, hsent, harrived⟩ := hs
    exact ⟨by simp [hflight], by simp [hflight, hsent, harrived, weight]⟩
  step _ _ h he := h.step hcodec he

/-- However many endpoints answer each other's answers, and whatever becomes of their connections,
each packet that anyone sends is paid for: what arrives because of it, itself included, is bounded
by its size. -/
theorem answers_die_out (hcodec : codec.Lawful) (h : (machine codec).Reachable s) :
    s.arrived + s.inFlight.length ≤ (s.sent.map arrivalsOf).sum := by
  have hused := ((inductive_inv hcodec).reachable h).used
  have hlength := length_le_weight s.inFlight
  omega

/-- Two fresh endpoints: a packet of an unknown version is answered with a version negotiation
packet of 51 bytes, that with a reset of 45, and that with one of 43. -/
theorem answers_die_out_fresh :
    ∃ s : Network Bool (Token Bool) Bytes,
      (machine Dispatcher.headerCodec).Reachable s ∧ s.arrived = 3 ∧
      s.inFlight.map (·.data.length) = [43] ∧
      s.arrived + s.inFlight.length ≤ (s.sent.map arrivalsOf).sum := by
  let start : Network Bool (Token Bool) Bytes := { endpoints := fun _ => some Dispatcher.fresh }
  let draws : Draws := ⟨[], [], 5, fun _ => 0⟩
  let data : Bytes := [192, 10, 10, 10, 10, 20] ++ List.replicate 20 1 ++ 20 ::
    List.replicate 1173 2
  have hstart : (machine Dispatcher.headerCodec).Reachable start := .initial ⟨rfl, rfl, rfl⟩
  have hrun : ((machine Dispatcher.headerCodec).run start [.send false true data, .deliver 0 draws,
      .deliver 0 draws, .deliver 0 draws]).map (fun s =>
        (s.arrived, s.inFlight.map (·.data.length))) = some (3, [43]) := by
    decide +kernel
  obtain ⟨s, hs, hview⟩ := Option.map_eq_some_iff.mp hrun
  obtain ⟨harrived, hflight⟩ := Prod.mk.inj hview
  have hreach := hstart.run hs
  exact ⟨s, hreach, harrived, hflight, answers_die_out Dispatcher.lawful_headerCodec hreach⟩

end Network

end Libquic
