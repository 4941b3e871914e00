import Libquic.Connection.Flush

/-!
# What a flush keeps

Every turn of the loop of `flush_packets` leaves the batch holding exactly the packets
written and not yet sent, with room for the next one; when the flush returns, the batch
is empty or stalled. In runs where ngtcp2 reports one path for all packets of a batch,
the packets are also sent with the paths reported for them.
-/
namespace Libquic

open Lib Lib.Memory

variable {Addr δ : Type} [Inhabited Addr]

/-! ## Streams in a flush -/

namespace Stream

variable {s : Stream}

/-- The send point lies within the buffers, and `unsent` counts what comes after it. -/
structure Sendable (s : Stream) : Prop where
  point : s.AtSendPoint
  filled : Filled s.userBuffers
  unsent : s.unsentSize = s.unsentBytes.length

theorem Sendable.noteFin (h : s.Sendable) (o : Offer) (n : Nat) : (s.noteFin o n).Sendable :=
  ⟨h.point, h.filled, h.unsent⟩

theorem Sendable.wrote (h : s.Sendable) (reaction : Reaction) {n : Nat}
    (hn : n ≤ s.unsentBytes.length) :
    ∃ t, s.wrote (react true reaction) n = .ok t ∧ t.Sendable := by
  obtain ⟨added, alarm, index, offset, hadded, hok, hpoint, hpos⟩ :=
    wrote_spec (react_onlySends true reaction) h.point h.filled h.unsent hn
  have hgrown : (s.grow added alarm).unsentBytes.length =
      s.unsentBytes.length + (bytesOf added).length := by
    rw [grow_unsentBytes alarm h.point hadded, List.length_append]
  have hbytes : ((s.grow added alarm).move n index offset).unsentBytes.length =
      (s.grow added alarm).unsentBytes.length - n := by
    rw [unsentBytes, hpos, unsentBytes, (grow_point alarm h.point hadded).2, ← List.drop_drop,
      List.length_drop]
    rfl
  refine ⟨_, hok, hpoint, h.filled.append hadded, ?_⟩
  rw [hbytes, hgrown, ← h.unsent]
  rfl

/-- What a stream's turn offers is there to be sent. -/
theorem Sendable.offer (h : s.Sendable) :
    ∃ o, s.offer = .ok o ∧ s.offeredSize ≤ s.unsentBytes.length := by
  rcases offer_spec h.point h.filled h.unsent with ⟨hok, -⟩ | ⟨o, hok, hpre, -⟩
  · exact ⟨none, hok, by simp [offeredSize, hok]⟩
  · exact ⟨some o, hok, by simpa [offeredSize, hok] using hpre.length_le⟩

end Stream

/-! ## The batch -/

namespace SendBatch

variable {b : SendBatch Addr} {pkts : List (Packet (Mark Addr))}

/-- The batch holds these packets, and its arrays have room for a full batch. -/
structure Holding (b : SendBatch Addr) (pkts : List (Packet (Mark Addr))) : Prop where
  buf : b.arrays.buf.length = maxBatch * maxPmtudUdpPayload
  size : b.arrays.size.length = maxBatch
  ecn : b.arrays.ecn.length = maxBatch
  holds : b.arrays.Holds pkts
  count : b.nPackets = pkts.length
  le : pkts.length ≤ maxBatch
  fits : ∀ p ∈ pkts, p.data ≠ [] ∧ p.size ≤ maxPmtudUdpPayload

omit [Inhabited Addr] in
/-- The batch with its packets discarded. -/
theorem Holding.discard (h : b.Holding pkts) : { b with nPackets := 0 }.Holding [] :=
  ⟨h.buf, h.size, h.ecn, Arrays.holds_nil _, rfl, Nat.zero_le _, by simp⟩

omit [Inhabited Addr] in
theorem Holding.nPackets_ne_zero (h : b.Holding pkts) (hne : pkts ≠ []) : b.nPackets ≠ 0 := by
  simpa [h.count] using hne

omit [Inhabited Addr] in
theorem Holding.total (h : b.Holding pkts) :
    (pkts.flatMap Packet.data).length ≤ pkts.length * maxPmtudUdpPayload := by
  rw [Arrays.length_flatMap]
  have := List.sum_le_card_nsmul (pkts.map Packet.size) maxPmtudUdpPayload (by
    intro n hn
    obtain ⟨p, hp, rfl⟩ := List.mem_map.mp hn
    exact (h.fits p hp).2)
  simpa using this

omit [Inhabited Addr] in
/-- A packet written after those in the batch joins them. -/
theorem Holding.push (h : b.Holding pkts) (hroom : pkts.length < maxBatch) {data : Bytes}
    (hne : data ≠ []) (hfit : data.length ≤ maxPmtudUdpPayload) (mark : Mark Addr) :
    ∃ b', b.push (pkts.flatMap Packet.data).length data mark = .ok b' ∧
      b'.Holding (pkts ++ [⟨data, mark⟩]) ∧ b'.stalled = b.stalled := by
  have htotal := h.total
  have hbuf : (pkts.flatMap Packet.data).length + data.length ≤ b.arrays.buf.length := by
    have hcap : (pkts.length + 1) * maxPmtudUdpPayload ≤ maxBatch * maxPmtudUdpPayload :=
      Nat.mul_le_mul_right _ hroom
    rw [Nat.add_mul, Nat.one_mul] at hcap
    rw [h.buf]
    omega
  have hone {α : Type} {mem : List α} (x : α) (hm : mem.length = maxBatch) :
      b.nPackets + [x].length ≤ mem.length := by
    rw [h.count, hm]
    exact hroom
  have hlen : pkts.length = b.nPackets := h.count.symm
  have hcond : ¬ (b.arrays.buf.length < (pkts.flatMap Packet.data).length + data.length ∨
      b.arrays.size.length ≤ b.nPackets ∨ b.arrays.ecn.length ≤ b.nPackets) := by
    rw [h.size, h.ecn]
    omega
  refine ⟨_, if_neg hcond, ⟨?_, ?_, ?_, ⟨?_, ?_, ?_⟩, ?_, ?_, ?_⟩, rfl⟩
  · rw [length_write hbuf, h.buf]
  · rw [length_write (hone _ h.size), h.size]
  · rw [length_write (hone _ h.ecn), h.ecn]
  · rw [List.flatMap_append, List.flatMap_singleton]
    exact h.holds.buf.extend rfl hbuf
  · rw [List.map_append]
    exact h.holds.size.extend (by simpa using hlen) (hone _ h.size)
  · rw [List.map_append]
    exact h.holds.ecn.extend (by simpa using hlen) (hone _ h.ecn)
  · simp [h.count]
  · simpa using hroom
  · intro p hp
    rcases List.mem_append.mp hp with hp | hp
    · exact h.fits p hp
    · obtain rfl := List.mem_singleton.mp hp
      exact ⟨hne, hfit⟩

/-- A transport that delivers leaves packets in the batch only if it is blocked. -/
theorem Holding.hand (h : b.Holding pkts) {transport : Transport}
    (ht : transport.Delivers maxBatch) :
    ∃ result arrays kept, b.hand transport =
        .ok (result, { b with arrays := arrays, nPackets := kept.length }) ∧
      { b with arrays := arrays, nPackets := kept.length }.Holding kept ∧
      (∀ p ∈ kept, p ∈ pkts) ∧ (result = .blocked ↔ kept ≠ []) := by
  obtain ⟨r, hok, hacc⟩ := sendPackets_accounts h.holds (fun p hp => (h.fits p hp).1)
    (ht.mono h.le)
  generalize transport.fates pkts = fates at hacc
  have hle : pkts.length ≤ maxBatch := h.le
  have hsame := sendPackets_sameSize hok (by rw [h.size]; omega) (by rw [h.ecn]; omega)
  have hkept : withFate .kept fates ⊆ pkts := hacc.each ▸ withFate_subset .kept fates
  have hcount : (withFate .kept fates).length ≤ pkts.length :=
    hacc.each ▸ length_withFate_le .kept fates
  refine ⟨r.result, r.arrays, withFate .kept fates, ?_, ⟨?_, ?_, ?_, hacc.holds, rfl, ?_, ?_⟩,
    fun p hp => hkept hp, hacc.blocked⟩
  · simp only [SendBatch.hand, h.count, hok, hacc.left]
  · exact hsame.buf.trans h.buf
  · exact hsame.size.trans h.size
  · exact hsame.ecn.trans h.ecn
  · exact hcount.trans h.le
  · exact fun p hp => h.fits p (hkept hp)

/-- Without NAT64 the path of the connection is used. -/
theorem Holding.handing (h : b.Holding pkts) {δ : Type} {c : FlushConn Addr δ}
    (hc : c.nat64Path = none) : b.handing c = pkts.map fun p => (p.ecn.path, c.path) := by
  simp [SendBatch.handing, FlushConn.sendPath, hc, h.count, h.holds.read]

end SendBatch

/-! ## The loop -/

/-- The channels still to come: streams and datagrams that the connection has, and last the
pseudo stream. -/
structure Channels (c : FlushConn Addr δ) (channels : List Channel) : Prop where
  last : channels ≠ [] → ∃ front, channels = front ++ [.pseudo] ∧ .pseudo ∉ front
  stream : ∀ id, .stream id ∈ channels → ∃ entry ∈ c.streams, entry.1 = id
  dgrams : .datagrams ∈ channels → c.dgrams ≠ none

structure FlushLoop.Sound (f : FlushLoop) (c : FlushConn Addr δ)
    (pkts : List (Packet (Mark Addr))) : Prop where
  pos : f.bufPos = (pkts.flatMap Packet.data).length
  room : pkts.length < maxBatch
  channels : Channels c f.channels
  datagrams : f.inDatagrams ≠ none → Channels c (.datagrams :: f.channels)

namespace Channels

variable {c c' : FlushConn Addr δ} {source : Channel} {rest : List Channel}

omit [Inhabited Addr]

theorem congr (h : Channels c rest)
    (hs : ∀ id, (∃ entry ∈ c.streams, entry.1 = id) → ∃ entry ∈ c'.streams, entry.1 = id)
    (hd : c.dgrams ≠ none → c'.dgrams ≠ none) : Channels c' rest :=
  ⟨h.last, fun id hid => hs id (h.stream id hid), fun hmem => hd (h.dgrams hmem)⟩

/-- Only the pseudo stream is the last channel. -/
theorem rest_ne_nil (h : Channels c (source :: rest)) (hsrc : source ≠ .pseudo) : rest ≠ [] := by
  rintro rfl
  obtain ⟨front, heq, -⟩ := h.last (by simp)
  cases front with
  | nil => exact hsrc (by simpa using heq)
  | cons a front => simp at heq

theorem tail (h : Channels c (source :: rest)) : Channels c rest := by
  refine ⟨fun hne => ?_, fun id hid => h.stream id (by simp [hid]), fun hd => h.dgrams (by simp [hd])⟩
  obtain ⟨front, heq, hnot⟩ := h.last (by simp)
  cases front with
  | nil => exact absurd (by simpa using congrArg List.tail heq) hne
  | cons a front =>
    obtain ⟨rfl, rfl⟩ := List.cons.inj heq
    exact ⟨front, rfl, fun hmem => hnot (by simp [hmem])⟩

/-- The channels after one that is not the pseudo stream end with the pseudo stream. -/
theorem split (h : Channels c (source :: rest)) (hsrc : source ≠ .pseudo) :
    ∃ front, rest = front ++ [.pseudo] ∧ .pseudo ∉ front := h.tail.last (h.rest_ne_nil hsrc)

theorem pseudo (c : FlushConn Addr δ) : Channels c [.pseudo] :=
  ⟨fun _ => ⟨[], rfl, by simp⟩, by simp, by simp⟩

/-- A channel that was taken off the front goes back in before the pseudo stream. -/
theorem reinsert (h : Channels c (source :: rest)) (hsrc : source ≠ .pseudo) :
    Channels c (rest.dropLast ++ [source] ++ rest.drop (rest.length - 1)) := by
  obtain ⟨front, rfl, hnot⟩ := h.split hsrc
  have heq : (front ++ [Channel.pseudo]).dropLast ++ [source] ++
      (front ++ [Channel.pseudo]).drop ((front ++ [Channel.pseudo]).length - 1) =
      (front ++ [source]) ++ [.pseudo] := by simp
  rw [heq]
  refine ⟨fun _ => ⟨_, rfl, ?_⟩, fun id hid => h.stream id ?_, fun hd => h.dgrams ?_⟩
  · simpa [hnot] using hsrc.symm
  · simp at hid ⊢
    tauto
  · simp at hd ⊢
    tauto

end Channels

namespace Flush

variable {k : Prop} {i : Nat} {x : Flush Addr δ} {f : FlushLoop}
  {pkts : List (Packet (Mark Addr))}

/-- The packets in the batch were all reported with the path that the connection has now, and
every packet so far was sent with the path reported for it. -/
structure Straight (c : FlushConn Addr δ) (handed : List (Path Addr × Path Addr))
    (pkts : List (Packet (Mark Addr))) : Prop where
  marks : ∀ p ∈ pkts, p.ecn.path = c.path
  handed : ∀ h ∈ handed, h.1 = h.2

/-- What holds throughout a flush; its paths are straight in runs where `k` is assumed. -/
structure Sound (k : Prop) (x : Flush Addr δ) (pkts : List (Packet (Mark Addr))) : Prop where
  batch : x.batch.Holding pkts
  streams : ∀ entry ∈ x.conn.streams, entry.2.Sendable
  straight : k → Straight x.conn x.handed pkts

/-- The flush is at the top of its loop, or in the middle of it with variables `f`. -/
structure Building (k : Prop) (x : Flush Addr δ) (f : FlushLoop)
    (pkts : List (Packet (Mark Addr))) : Prop extends Sound k x pkts where
  clear : x.batch.stalled = false
  loop : f.Sound x.conn pkts

/-- The flush of connection `i` has returned. -/
structure Returned (k : Prop) (i : Nat) (x : Flush Addr δ) (pkts : List (Packet (Mark Addr))) :
    Prop extends Sound k x pkts where
  done : x.batch.stalled = false ∧ pkts = [] ∨ x.batch.stalled = true ∧ pkts ≠ [] ∧
    x.batch.owner = some i

def Inv (k : Prop) (i : Nat) (x : Flush Addr δ) : Prop :=
  match x.loop with
  | some f => ∃ pkts, Building k x f pkts
  | none => ∃ pkts, Returned k i x pkts

omit [Inhabited Addr] in
theorem Inv.sound (h : x.Inv k i) : ∃ pkts, Sound k x pkts := by
  obtain ⟨conn, batch, loop, handed⟩ := x
  cases loop with
  | none =>
    obtain ⟨pkts, hret⟩ := h
    exact ⟨pkts, hret.toSound⟩
  | some f =>
    obtain ⟨pkts, hbuild⟩ := h
    exact ⟨pkts, hbuild.toSound⟩

omit [Inhabited Addr] in
theorem Building.goOn (h : Building k x f pkts) : ∃ y, x.goOn f = .ok y ∧ y.Inv k i :=
  ⟨_, rfl, pkts, ⟨h.batch, h.streams, h.straight⟩, h.clear, h.loop⟩

omit [Inhabited Addr] in
theorem Sound.abandon (h : Sound k x pkts) (hclear : x.batch.stalled = false) :
    ∃ y, x.abandon = .ok y ∧ y.Inv k i :=
  ⟨_, rfl, [], ⟨h.batch.discard, h.streams, fun hk =>
    ⟨by simp, (h.straight hk).handed⟩⟩, .inl ⟨hclear, rfl⟩⟩

/-- Packets on a straight path are sent with the paths reported for them. -/
theorem Straight.hand {c : FlushConn Addr δ} {b : SendBatch Addr} {kept : List (Packet (Mark Addr))}
    {handed : List (Path Addr × Path Addr)} (h : Straight c handed pkts) (hb : b.Holding pkts)
    (hkept : ∀ p ∈ kept, p ∈ pkts) : Straight c (handed ++ b.handing c) kept := by
  refine ⟨fun p hp => h.marks p (hkept p hp), ?_⟩
  intro pair hpair
  rcases List.mem_append.mp hpair with hpair | hpair
  · exact h.handed pair hpair
  · cases hnat : c.nat64Path with
    | some path => simp [SendBatch.handing, hnat] at hpair
    | none =>
      rw [hb.handing hnat] at hpair
      obtain ⟨p, hp, rfl⟩ := List.mem_map.mp hpair
      exact h.marks p hp

/-- Sending a batch that is not empty either empties it or stalls it. -/
theorem Sound.send (h : Sound k x pkts) (hclear : x.batch.stalled = false) (hne : pkts ≠ [])
    {transport : Transport} (ht : transport.Delivers maxBatch) :
    ∃ on y kept, x.send i transport = .ok (on, y) ∧ y.conn = x.conn ∧ Returned k i y kept ∧
      (on = true → y.batch.stalled = false) ∧
      y.handed = x.handed ++ x.batch.handing x.conn := by
  obtain ⟨result, arrays, kept, hhand, hhold, hsub, hblocked⟩ := h.batch.hand ht
  have hlen : ¬ (x.batch.nPackets = 0 ∨ maxBatch < x.batch.nPackets) := by
    have hle : pkts.length ≤ maxBatch := h.batch.le
    have hpos := List.length_pos_iff.mpr hne
    rw [h.batch.count]
    omega
  have hstraight (hk : k) := (h.straight hk).hand h.batch hsub
  by_cases hret : result = .blocked
  · have hkept := hblocked.mp hret
    refine ⟨false, x.handOver { x.batch with
      arrays := arrays, nPackets := kept.length, stalled := true, owner := some i }, kept, ?_, rfl,
      ⟨⟨?_, h.streams, hstraight⟩, .inr ⟨rfl, hkept, rfl⟩⟩, by simp, rfl⟩
    · rw [Flush.send, if_neg hlen]
      simp [hhand, hret, SendBatch.stallSend, hclear, hkept]
    · exact ⟨hhold.buf, hhold.size, hhold.ecn, hhold.holds, hhold.count, hhold.le, hhold.fits⟩
  · obtain rfl : kept = [] := by simpa using mt hblocked.mpr hret
    refine ⟨result == .ok, x.handOver { x.batch with arrays := arrays, nPackets := 0 }, [], ?_, rfl,
      ⟨⟨hhold, h.streams, hstraight⟩, .inl ⟨hclear, rfl⟩⟩, fun _ => hclear, rfl⟩
    rw [Flush.send, if_neg hlen]
    cases result <;> simp_all

/-- A flush ends by sending what is left in the batch. -/
theorem Sound.finish (h : Sound k x pkts) (hclear : x.batch.stalled = false)
    {transport : Transport} (ht : transport.Delivers maxBatch) :
    ∃ y, x.finish i transport = .ok y ∧ y.Inv k i ∧ y.loop = none ∧
      y.handed = x.handed ++ x.batch.handing x.conn := by
  by_cases hnil : pkts = []
  · have h0 : x.batch.nPackets = 0 := by rw [h.batch.count, hnil, List.length_nil]
    exact ⟨{ x with loop := none }, by simp [Flush.finish, h0],
      ⟨pkts, ⟨h.batch, h.streams, h.straight⟩, .inl ⟨hclear, hnil⟩⟩, rfl,
      by simp [SendBatch.handing, h0, Arrays.read, Arrays.readFrom]⟩
  · have h0 := h.batch.nPackets_ne_zero hnil
    obtain ⟨on, y, kept, hok, -, hy, -, hhanded⟩ := h.send (i := i) hclear hnil ht
    exact ⟨{ y with loop := none }, by simp [Flush.finish, h0, hok],
      ⟨kept, ⟨hy.batch, hy.streams, hy.straight⟩, hy.done⟩, rfl, hhanded⟩

omit [Inhabited Addr] in
theorem lookup_mem {id : Int} {s : Stream} (h : x.lookup id = some s) : (id, s) ∈ x.conn.streams := by
  obtain ⟨⟨id', s'⟩, hfind, rfl⟩ := Option.map_eq_some_iff.mp h
  have hid := List.find?_some hfind
  have hmem := List.mem_of_find?_eq_some hfind
  simp only [decide_eq_true_eq] at hid
  exact hid ▸ hmem

section

omit [Inhabited Addr]

theorem channels_setStream {l : List Channel} (h : Channels x.conn l) (id : Int)
    (s : Stream) : Channels (x.setStream id s).conn l := by
  refine h.congr (fun id' => ?_) fun hd => hd
  rintro ⟨entry, hmem, rfl⟩
  refine ⟨_, List.mem_map_of_mem hmem, ?_⟩
  split_ifs with heq
  · exact heq.symm
  · rfl

/-- The connection may change in the middle of a flush as long as its channels stay, and its
path does if there are packets in the batch. -/
theorem Building.setConn (h : Building k x f pkts) {c : FlushConn Addr δ}
    (hs : ∀ entry ∈ c.streams, entry.2.Sendable)
    (hpath : k → pkts ≠ [] → c.path = x.conn.path)
    (hch : ∀ l, Channels x.conn l → Channels c l) : Building k { x with conn := c } f pkts := by
  refine ⟨⟨h.batch, hs, fun hk => ⟨?_, (h.straight hk).handed⟩⟩, h.clear, h.loop.pos,
    h.loop.room, hch _ h.loop.channels, fun hin => hch _ (h.loop.datagrams hin)⟩
  intro p hp
  exact ((h.straight hk).marks p hp).trans (hpath hk (List.ne_nil_of_mem hp)).symm

theorem Building.setStream (h : Building k x f pkts) (id : Int) {s : Stream} (hs : s.Sendable) :
    Building k (x.setStream id s) f pkts := by
  refine h.setConn ?_ (fun _ _ => rfl) fun l hl => channels_setStream hl id s
  intro entry hmem
  obtain ⟨entry', hmem', rfl⟩ := List.mem_map.mp hmem
  split_ifs
  · exact hs
  · exact h.streams entry' hmem'

/-- ngtcp2 reports a path: the same one as before if there are packets in the batch. -/
theorem Building.setPath (h : Building k x f pkts) {path : Path Addr}
    (hpath : k → pkts ≠ [] → path = x.conn.path) :
    Building k { x with conn.path := path } f pkts :=
  h.setConn h.streams hpath fun _ hl => hl.congr (fun _ he => he) fun hd => hd

theorem Building.setDgrams (h : Building k x f pkts) (q : δ) :
    Building k { x with conn.dgrams := some q } f pkts :=
  h.setConn h.streams (fun _ _ => rfl) fun _ hl => hl.congr (fun _ he => he) fun _ => by simp

/-- The loop's variables other than those that say where the next packet goes. -/
theorem Building.setLoop (h : Building k x f pkts) {f' : FlushLoop} (hpos : f'.bufPos = f.bufPos)
    (hch : Channels x.conn f'.channels)
    (hin : f'.inDatagrams ≠ none → Channels x.conn (.datagrams :: f'.channels)) :
    Building k x f' pkts :=
  ⟨h.toSound, h.clear, hpos.trans h.loop.pos, h.loop.room, hch, hin⟩

/-- What ngtcp2 took of the stream whose turn it is was there to be sent. -/
def Taken (w : Write Addr) (x : Flush Addr δ) (source : Channel) : Prop :=
  ∀ id s, source = .stream id → x.lookup id = some s → w.ndatalen.getD 0 ≤ s.unsentBytes.length

theorem Building.wrote (h : Building k x f pkts) {w : Write Addr} {source : Channel}
    (htaken : x.Taken w source) (hsrc : Channels x.conn (source :: f.channels)) :
    ∃ y, x.wrote w source = .ok y ∧ Building k y f pkts ∧ y.conn.path = x.conn.path ∧
      Channels y.conn (source :: f.channels) := by
  cases source with
  | datagrams => exact ⟨x, rfl, h, rfl, hsrc⟩
  | pseudo => exact ⟨x, rfl, h, rfl, hsrc⟩
  | stream id =>
    rw [Flush.wrote]
    cases hl : x.lookup id with
    | none => exact ⟨x, rfl, h, rfl, hsrc⟩
    | some s =>
      cases hn : w.ndatalen with
      | none => exact ⟨x, rfl, h, rfl, hsrc⟩
      | some n =>
        have hle : n ≤ s.unsentBytes.length := by simpa [hn] using htaken id s rfl hl
        obtain ⟨t, hok, ht⟩ := (h.streams _ (lookup_mem hl)).wrote w.reaction hle
        exact ⟨x.setStream id t, by simp [hok], h.setStream id ht, rfl, channels_setStream hsrc id t⟩

theorem requeue_spec (Q : DgramChannel δ) {source : Channel} {waiting : Bool} {rest : List Channel}
    (hsrc : Channels x.conn (source :: rest)) (hwait : waiting = true → source = .datagrams) :
    ∃ l, x.requeue Q source waiting rest = .ok l ∧ Channels x.conn l := by
  unfold requeue
  split_ifs with hw hp hu hempty
  · exact ⟨_, rfl, hwait hw ▸ hsrc⟩
  · exact ⟨_, rfl, .pseudo _⟩
  · cases source with
    | pseudo => simp [hasUnsent] at hu
    | _ => exact absurd (by simpa using hempty) (hsrc.rest_ne_nil (by simp))
  · refine ⟨_, rfl, hsrc.reinsert ?_⟩
    rintro rfl
    simp [hasUnsent] at hu
  · exact ⟨_, rfl, hsrc.tail⟩

end

section

variable {Q : DgramChannel δ} {source : Channel} {waiting : Bool} {w : Write Addr}

theorem Building.proceed (h : Building k x f pkts) (hin : f.inDatagrams = none)
    (hsrc : Channels x.conn (source :: f.channels)) (hwait : waiting = true → source = .datagrams)
    {transport : Transport} (ht : transport.Delivers maxBatch) :
    ∃ y, x.proceed Q i source waiting transport f = .ok y ∧ y.Inv k i := by
  unfold Flush.proceed
  split_ifs
  · obtain ⟨y, hok, hy, -⟩ := h.finish (i := i) h.clear ht
    exact ⟨y, hok, hy⟩
  · obtain ⟨l, hok, hl⟩ := requeue_spec Q hsrc hwait
    rw [hok, ok_bind]
    have hnext : Building k x { f with channels := l } pkts := h.setLoop rfl hl (absurd hin)
    exact hnext.goOn

theorem Building.packetWritten (h : Building k x f pkts) (hin : f.inDatagrams = none)
    (hsrc : Channels x.conn (source :: f.channels)) (hwait : waiting = true → source = .datagrams)
    (htaken : x.Taken w source) (ht : w.transport.Delivers maxBatch) {data : Bytes}
    (hne : data ≠ []) (hfit : data.length ≤ maxPmtudUdpPayload) (ecn : UInt8) :
    ∃ y, x.packetWritten Q i source waiting w data ecn f = .ok y ∧ y.Inv k i := by
  obtain ⟨x, hok, h, -, hsrc⟩ := h.wrote htaken hsrc
  obtain ⟨b, hpush, hb, hclear⟩ := h.batch.push h.loop.room hne hfit ⟨ecn, x.conn.path⟩
  rw [← h.loop.pos] at hpush
  have hsound : Sound k { x with batch := b } (pkts ++ [⟨data, ⟨ecn, x.conn.path⟩⟩]) := by
    refine ⟨hb, h.streams, fun hk => ⟨?_, (h.straight hk).handed⟩⟩
    intro p hp
    rcases List.mem_append.mp hp with hp | hp
    · exact (h.straight hk).marks p hp
    · obtain rfl := List.mem_singleton.mp hp
      rfl
  simp only [Flush.packetWritten, hok, hpush, ok_bind]
  by_cases hfull : b.nPackets = maxBatch
  · rw [if_pos hfull]
    obtain ⟨on, y, kept, hsend, hconn, hy, hon, -⟩ :=
      hsound.send (i := i) (hclear.trans h.clear) (by simp) ht
    rw [hsend, ok_bind]
    cases on with
    | false =>
      exact ⟨_, rfl, kept, ⟨hy.batch, hy.streams, hy.straight⟩, hy.done⟩
    | true =>
      have hstalled := hon rfl
      obtain rfl : kept = [] := by
        rcases hy.done with ⟨-, hnil⟩ | ⟨hst, -⟩
        · exact hnil
        · rw [hstalled] at hst
          cases hst
      have hempty : ¬ y.batch.nPackets ≠ 0 := by simp [hy.batch.count]
      simp only [Bool.not_true, Bool.false_eq_true, if_false, if_neg hempty]
      have hnext : Building k y { f with
          partiallyFilled := false, bufPos := 0, streamPackets := f.streamPackets + 1 } [] :=
        ⟨hy.toSound, hstalled, rfl, by simp [maxBatch], hconn ▸ hsrc.tail, absurd hin⟩
      exact hnext.proceed hin (hconn ▸ hsrc) hwait ht
  · rw [if_neg hfull]
    have hroom : (pkts ++ [(⟨data, ⟨ecn, x.conn.path⟩⟩ : Packet (Mark Addr))]).length < maxBatch :=
      lt_of_le_of_ne hb.le (hb.count ▸ hfull)
    have hnext : Building k { x with batch := b } { f with
        partiallyFilled := false
        bufPos := f.bufPos + data.length
        streamPackets := f.streamPackets + 1 } (pkts ++ [⟨data, ⟨ecn, x.conn.path⟩⟩]) :=
      ⟨hsound, hclear.trans h.clear, by simp [h.loop.pos], hroom, hsrc.tail, absurd hin⟩
    exact hnext.proceed hin hsrc hwait ht

/-- What follows a call keeps the invariant, whatever the call returned. -/
theorem Building.conclude (h : Building k x f pkts) (hin : f.inDatagrams = none)
    (hsrc : Channels x.conn (source :: f.channels)) (hwait : waiting = true → source = .datagrams)
    (htaken : x.Taken w source) (ht : w.transport.Delivers maxBatch) {nwrite : Nwrite}
    (hpacket : ∀ data ecn, nwrite = .packet data ecn →
      data ≠ [] ∧ data.length ≤ maxPmtudUdpPayload)
    (hmore : nwrite = .error .writeMore → source ≠ .datagrams → w.ndatalen.isSome) :
    ∃ y, x.conclude Q i source waiting nwrite w f = .ok y ∧ y.Inv k i := by
  cases nwrite with
  | packet data ecn =>
    obtain ⟨hne, hfit⟩ := hpacket data ecn rfl
    exact h.packetWritten hin hsrc hwait htaken ht hne hfit ecn
  | zero =>
    cases source with
    | stream id =>
      obtain ⟨front, hfront, -⟩ := hsrc.split (by simp)
      have hlast : Channels x.conn (f.channels.drop (f.channels.length - 1)) := by
        simpa [hfront] using Channels.pseudo x.conn
      have hnext : Building k x { f with
          channels := f.channels.drop (f.channels.length - 1) } pkts :=
        h.setLoop rfl hlast (absurd hin)
      exact hnext.goOn
    | datagrams => exact h.goOn
    | pseudo => exact h.goOn
  | error e =>
    have hnext (l : List Channel) (hl : Channels x.conn l) :
        Building k x { f with partiallyFilled := true, channels := l } pkts :=
      h.setLoop rfl hl (absurd hin)
    unfold Flush.conclude
    dsimp only
    split_ifs with hend hfatal hwm hdg hunsent hnone
    · exact h.abandon h.clear
    · have hdead : Sound k { x with conn.dead := true } pkts :=
        ⟨h.batch, h.streams, fun hk =>
          ⟨(h.straight hk).marks, (h.straight hk).handed⟩⟩
      exact hdead.abandon h.clear
    · exact (hnext _ (hdg ▸ hsrc)).goOn
    · exact (hnext _ hsrc.tail).goOn
    · have hsome := hmore (by rw [hwm]) hdg
      cases hn : w.ndatalen <;> simp [hn] at hnone hsome
    · obtain ⟨y, hok, hy, -, hsrc⟩ := h.wrote htaken hsrc
      have hnext : Building k y { f with partiallyFilled := true } pkts :=
        hy.setLoop rfl hsrc.tail (absurd hin)
      rw [hok, ok_bind]
      exact hnext.goOn
    · exact h.goOn

omit [Inhabited Addr] in
theorem Write.packet_valid (hv : w.valid = true) (data : Bytes) (ecn : UInt8)
    (hw : w.nwrite = .packet data ecn) : data ≠ [] ∧ data.length ≤ maxPmtudUdpPayload := by
  simpa [Write.valid, hw] using hv

omit [Inhabited Addr] in
theorem Write.more_valid (hv : w.valid = true) (hw : w.nwrite = .error .writeMore) :
    w.ndatalen.isSome := by simpa [Write.valid, hw] using hv

theorem Building.datagramTurn (h : Building k x f pkts) {more : Bool}
    (hin : f.inDatagrams = some (waiting, more)) (hv : w.valid = true)
    (hpath : k → pkts ≠ [] → w.path = x.conn.path) (ht : w.transport.Delivers maxBatch) :
    ∃ y, x.datagramTurn Q i waiting more w f = .ok y ∧ y.Inv k i := by
  have hsrc := h.loop.datagrams (by simp [hin])
  obtain ⟨q, hq⟩ := Option.ne_none_iff_exists'.mp (hsrc.dgrams (by simp))
  have hout : Building k x { f with inDatagrams := none } pkts := h.setLoop rfl hsrc.tail (by simp)
  have htaken {y : Flush Addr δ} : y.Taken w .datagrams := fun id s heq => by cases heq
  simp only [Flush.datagramTurn, hq]
  generalize Q.pending f.partiallyFilled q = fetched
  obtain ⟨found, q⟩ := fetched
  cases found with
  | false =>
    simp only [Bool.not_false, if_true]
    refine (hout.setDgrams q).conclude rfl (hsrc.congr (fun _ he => he) (by simp)) (by simp) htaken
      ht ?_ (by simp)
    cases more <;> simp
  | true =>
    have hnow (q : δ) : Building k { x with conn.path := w.path, conn.dgrams := some q } f pkts :=
      (h.setPath hpath).setDgrams q
    have hsrc' (q : δ) : Channels { x with conn.path := w.path, conn.dgrams := some q }.conn
      (.datagrams :: f.channels) := hsrc.congr (fun _ he => he) (by simp)
    simp only [Bool.not_true, Bool.false_eq_true, if_false]
    generalize (if w.accepted = true then Q.confirmSent q else q) = q
    by_cases hmore : w.nwrite = .error .writeMore
    · rw [if_pos hmore]
      have hnext : Building k { x with conn.path := w.path, conn.dgrams := some q } { f with
          partiallyFilled := true, inDatagrams := some (waiting && !w.accepted, true) } pkts :=
        (hnow q).setLoop rfl (hsrc' q).tail fun _ => hsrc' q
      exact hnext.goOn
    · rw [if_neg hmore]
      have hnext : Building k { x with conn.path := w.path, conn.dgrams := some q }
        { f with inDatagrams := none } pkts := (hnow q).setLoop rfl (hsrc' q).tail (by simp)
      exact hnext.conclude rfl (hsrc' q) (fun _ => rfl) htaken ht (Write.packet_valid hv)
        (absurd · hmore)

omit [Inhabited Addr] in
theorem eq_of_lookup_setStream {id : Int} {s t : Stream} (h : (x.setStream id s).lookup id = some t) :
    t = s := by
  obtain ⟨entry, -, heq⟩ := List.mem_map.mp (lookup_mem h)
  split_ifs at heq with hid
  · exact (Prod.mk.inj heq).2.symm
  · exact absurd (congrArg Prod.fst heq) hid

theorem Building.streamTurn {id : Int} (h : Building k x f pkts) (hin : f.inDatagrams = none)
    (hsrc : Channels x.conn (.stream id :: f.channels)) (hv : w.valid = true)
    (htaken : w.ndatalen.getD 0 ≤ ((x.lookup id).map Stream.offeredSize).getD 0)
    (hpath : k → pkts ≠ [] → w.path = x.conn.path) (ht : w.transport.Delivers maxBatch) :
    ∃ y, x.streamTurn Q i id w f = .ok y ∧ y.Inv k i := by
  obtain ⟨s, hs⟩ : ∃ s, x.lookup id = some s := by
    obtain ⟨entry, hmem, hid⟩ := hsrc.stream id (by simp)
    cases hl : x.lookup id with
    | some s => exact ⟨s, rfl⟩
    | none =>
      have hfind := Option.map_eq_none_iff.mp hl
      exact absurd hid (by simpa using List.find?_eq_none.mp hfind entry hmem)
  have hsend := h.streams _ (lookup_mem hs)
  obtain ⟨o, hoffer, hle⟩ := hsend.offer
  simp only [hs, Option.map_some, Option.getD_some] at htaken
  simp only [Flush.streamTurn, hs, hoffer, ok_bind]
  cases o with
  | none => exact h.goOn
  | some o =>
    have hnoted : (w.ndatalen.elim s (s.noteFin o)).Sendable ∧
        (w.ndatalen.elim s (s.noteFin o)).unsentBytes = s.unsentBytes := by
      cases w.ndatalen with
      | none => exact ⟨hsend, rfl⟩
      | some n => exact ⟨hsend.noteFin o n, rfl⟩
    refine ((h.setPath hpath).setStream id hnoted.1).conclude hin ?_ (by simp) ?_ ht
      (Write.packet_valid hv) fun hmore _ => Write.more_valid hv hmore
    · exact channels_setStream (x := { x with conn.path := w.path })
        (hsrc.congr (fun _ he => he) fun hd => hd) id _
    · rintro id' t heq hl
      cases heq
      rw [eq_of_lookup_setStream hl, hnoted.2]
      exact htaken.trans hle

/-- One turn of the loop keeps the invariant, if ngtcp2 reports the same path as before
whenever there are packets in the batch. -/
theorem Inv.iterate (h : x.Inv k i) (hw : w.Honest x)
    (hpath : k → x.batch.nPackets ≠ 0 → w.path = x.conn.path)
    (ht : w.transport.Delivers maxBatch) : ∃ y, x.iterate Q i w = .ok y ∧ y.Inv k i := by
  obtain ⟨conn, batch, loop, handed⟩ := x
  cases loop with
  | none => exact ⟨_, rfl, h⟩
  | some f =>
    obtain ⟨channels, maxStreamPackets, pos, filled, count, inDatagrams⟩ := f
    obtain ⟨pkts, h⟩ := h
    have hpath' : k → pkts ≠ [] → w.path = conn.path := fun hk hne =>
      hpath hk (h.batch.nPackets_ne_zero hne)
    cases inDatagrams with
    | some inner => exact h.datagramTurn rfl hw.valid hpath' ht
    | none =>
      cases channels with
      | nil =>
        obtain ⟨y, hok, hy, -⟩ := h.finish (i := i) h.clear ht
        exact ⟨y, hok, hy⟩
      | cons source rest =>
        have hsrc := h.loop.channels
        have hnext : Building k _ ⟨rest, maxStreamPackets, pos, filled, count, none⟩ pkts :=
          h.setLoop rfl hsrc.tail (by simp)
        cases source with
        | datagrams =>
          have hturn : Building k _
              ⟨rest, maxStreamPackets, pos, filled, count, some (true, false)⟩ pkts :=
            h.setLoop rfl hsrc.tail fun _ => hsrc
          exact hturn.goOn
        | stream id => exact hnext.streamTurn rfl hsrc hw.valid hw.taken hpath' ht
        | pseudo =>
          exact (hnext.setPath hpath').conclude rfl (hsrc.congr (fun _ he => he) fun hd => hd)
            (by simp) (fun _ _ heq => by cases heq) ht (Write.packet_valid hw.valid)
            fun hmore _ => Write.more_valid hw.valid hmore

/-- A packet written on the pseudo stream's turn that does not fill the batch. -/
theorem iterate_pseudo {b : SendBatch Addr} {data : Bytes} {ecn : UInt8} (hl : x.loop = some f)
    (hin : f.inDatagrams = none) (hch : f.channels = [.pseudo]) (hw : w.nwrite = .packet data ecn)
    (hpush : x.batch.push f.bufPos data ⟨ecn, w.path⟩ = .ok b) (hn : b.nPackets ≠ maxBatch) :
    x.iterate Q i w = Flush.proceed Q i .pseudo false w.transport
      { f with
        channels := [], partiallyFilled := false
        bufPos := f.bufPos + data.length, streamPackets := f.streamPackets + 1 }
      { x with conn.path := w.path, batch := b } := by
  obtain ⟨conn, batch, loop, handed⟩ := x
  obtain ⟨channels, maxStreamPackets, pos, filled, count, inDatagrams⟩ := f
  cases hl
  cases hin
  cases hch
  simp only [Flush.iterate, Flush.conclude, hw, Flush.packetWritten, Flush.wrote, ok_bind, hpush,
    if_neg hn]

end

end Flush

end Libquic
