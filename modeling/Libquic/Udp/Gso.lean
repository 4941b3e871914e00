import Libquic.Endpoint.SendPackets
import Libquic.Lib.Machine
import Libquic.Lib.Pieces

/-!
# Segmentation offload

With GSO `UDPSocket::send` merges consecutive packets into messages that the kernel cuts again, and
counts the packets that were sent from the bytes that the kernel reports for each message. With GRO
the kernel merges what it receives, and `process_received` cuts it.

The kernel is a specification: it cuts a message at the segment size of its control message, sends
the segments in order, and reports the bytes of those it has sent.
-/
namespace Libquic

open Lib Lib.Memory Lib.Pieces

variable {ε : Type}

/-! ## Sending -/

/-- A message for `sendmmsg`, and what is kept for it in `gso_sizes` and `gso_counts`. -/
structure GsoMsg (ε : Type) where
  /-- `iov_base`, from the start of the buffer -/
  base : Nat
  /-- `iov_len` -/
  len : Nat
  ecn : ε
  /-- the `UDP_SEGMENT` control message -/
  segment : Option Nat
  gsoSize : Nat
  gsoCount : Nat
  deriving DecidableEq, Repr

/-- The variables of the loop that builds the messages. `gsoSize` and `gsoCount` are the elements of
`gso_sizes` and `gso_counts` for the next message. -/
structure GsoBatch (ε : Type) where
  msgs : List (GsoMsg ε) := []
  nextBuf : Nat := 0
  batchBytes : Nat := 0
  gsoSize : Nat := 0
  gsoCount : Nat := 0

namespace GsoBatch

/-- The next packet belongs to the batch; sizes and counts have 16 bits. -/
def add (size : Nat) (b : GsoBatch ε) : GsoBatch ε :=
  { b with
    gsoCount := (b.gsoCount + 1) % 65536
    batchBytes := b.batchBytes + size
    gsoSize := if b.gsoSize = 0 then size % 65536 else b.gsoSize }

/-- The message for the packets of the batch. -/
def emit (ecn : ε) (b : GsoBatch ε) : GsoBatch ε where
  msgs := b.msgs ++ [{
    base := b.nextBuf
    len := b.batchBytes
    ecn := ecn
    segment := if 1 < b.gsoCount then some b.gsoSize else none
    gsoSize := b.gsoSize
    gsoCount := b.gsoCount }]
  nextBuf := b.nextBuf + b.batchBytes

@[simp] theorem msgs_add (size : Nat) (b : GsoBatch ε) : (b.add size).msgs = b.msgs := rfl

@[simp] theorem nextBuf_add (size : Nat) (b : GsoBatch ε) : (b.add size).nextBuf = b.nextBuf := rfl

@[simp] theorem length_msgs_emit (ecn : ε) (b : GsoBatch ε) :
    (b.emit ecn).msgs.length = b.msgs.length + 1 := List.length_append

/-- The packet after one of this size can join the batch. -/
def Joins (b : GsoBatch ε) (size next : Nat) (ecn nextEcn : ε) : Prop :=
  size = b.gsoSize ∧ nextEcn = ecn ∧
    (next = b.gsoSize ∨ next < b.gsoSize ∧ 2 ≤ b.gsoCount)

instance [DecidableEq ε] (b : GsoBatch ε) (size next : Nat) (ecn nextEcn : ε) :
    Decidable (b.Joins size next ecn nextEcn) :=
  inferInstanceAs (Decidable (_ ∧ _ ∧ (_ ∨ _ ∧ _)))

end GsoBatch

variable [DecidableEq ε] [Inhabited ε]

/-- The loop over `todo` packets from index `i` on. -/
def gsoLoop (a : Arrays ε) : (todo i : Nat) → GsoBatch ε → Except Fault (GsoBatch ε)
  | 0, _, b => .ok b
  | todo + 1, i, b =>
    if maxBatch ≤ b.msgs.length then .error .outOfRange
    else
      let size := a.size.getD i 0
      let ecn := a.ecn.getD i default
      let b := b.add size
      if todo ≠ 0 ∧ b.Joins size (a.size.getD (i + 1) 0) ecn (a.ecn.getD (i + 1) default) then
        gsoLoop a todo (i + 1) b
      else gsoLoop a todo (i + 1) (b.emit ecn)

/-- The messages that `UDPSocket::send` builds. -/
def gsoMessages (a : Arrays ε) (n : Nat) : Except Fault (List (GsoMsg ε)) := do
  let b ← gsoLoop a n 0 {}
  .ok b.msgs

omit [DecidableEq ε] [Inhabited ε]

/-- The loop that counts the packets that were sent, from `msg_len` of each message. -/
def sentLoop : List (GsoMsg ε × Nat) → (foundUnsent : Bool) → (sent : Nat) → Except Fault Nat
  | [], _, sent => .ok sent
  | (m, msgLen) :: rest, foundUnsent, sent =>
    if msgLen < m.len then
      if foundUnsent ∧ msgLen ≠ 0 then .error .assertion
      -- the remainder by zero is a fault as well
      else if m.gsoSize = 0 ∨ msgLen % m.gsoSize ≠ 0 then .error .assertion
      else sentLoop rest true (sent + msgLen / m.gsoSize)
    else if foundUnsent then .error .assertion
    else sentLoop rest false (sent + m.gsoCount)

/-! ## The kernel -/

/-- The packets that the kernel makes of a message. -/
def GsoMsg.segments (buf : Bytes) (m : GsoMsg ε) : List (Packet ε) :=
  let bytes := (buf.drop m.base).take m.len
  let pieces := match m.segment with
    | none => [bytes]
    | some size => cut size bytes
  pieces.map (⟨·, m.ecn⟩)

/-- What the kernel reports for each message when it has sent the first `n` segments. -/
def reported (buf : Bytes) : (n : Nat) → List (GsoMsg ε) → List (GsoMsg ε × Nat)
  | _, [] => []
  | n, m :: rest =>
    let segments := m.segments buf
    (m, ((segments.take n).map Packet.size).sum) :: reported buf (n - segments.length) rest

/-! ## Receiving -/

/-- What `process_received` reads of the `msghdr`. -/
structure MsgHdr (ε : Type) where
  truncated : Bool := false
  ecn : ε
  /-- the values of the `UDP_GRO` control messages, which are of type `int` -/
  gro : List Int := []

/-- The size at which the packets were merged, the last that is found. -/
def MsgHdr.segment (gro : Bool) (hdr : MsgHdr ε) : Nat :=
  if gro then hdr.gro.foldl (fun _ size => (size % 18446744073709551616).toNat) 0 else 0

/-- The packets for the callback and the count that is returned. Every packet has the addresses and
the time of the buffer, which are left out. -/
def processReceived (gro : Bool) (data : Bytes) (hdr : MsgHdr ε) : List (Packet ε) × Nat :=
  if data.isEmpty then ([], 0)
  else if hdr.truncated then ([], 1)
  else
    let segment := hdr.segment gro
    if segment = 0 ∨ data.length ≤ segment then ([⟨data, hdr.ecn⟩], 1)
    else
      let pieces := cut segment data
      (pieces.map (⟨·, hdr.ecn⟩), pieces.length)

/-! ## Messages and packets -/

/-- A message for these packets, which are in the buffer from `base` on. -/
structure GsoMsg.Describes (m : GsoMsg ε) (base : Nat) (group : List (Packet ε)) : Prop where
  base : m.base = base
  len : m.len = (group.flatMap Packet.data).length
  ecn : ∀ p ∈ group, p.ecn = m.ecn
  gsoCount : m.gsoCount = group.length
  uniform : Uniform m.gsoSize (group.map Packet.data)
  segment : m.segment = if 1 < group.length then some m.gsoSize else none

/-- Messages for these packets, one after the other. -/
inductive Batches : (base : Nat) → List (GsoMsg ε) → List (Packet ε) → Prop where
  | nil {base : Nat} : Batches base [] []
  | cons {base : Nat} {m : GsoMsg ε} {group : List (Packet ε)} {ms : List (GsoMsg ε)}
      {pkts : List (Packet ε)} : m.Describes base group →
      Batches (base + (group.flatMap Packet.data).length) ms pkts →
      Batches base (m :: ms) (group ++ pkts)

variable {buf : Bytes} {base : Nat} {m : GsoMsg ε} {ms : List (GsoMsg ε)}
  {group pkts : List (Packet ε)}

theorem map_mk_data {ecn : ε} (h : ∀ p ∈ group, p.ecn = ecn) :
    (group.map Packet.data).map (⟨·, ecn⟩) = group := by
  induction group with
  | nil => rfl
  | cons p group ih =>
    obtain ⟨data, ecn'⟩ := p
    have hp : ecn' = ecn := h ⟨data, ecn'⟩ (by simp)
    have hgroup := ih fun q hq => h q (by simp [hq])
    simp [hp, hgroup]

namespace GsoMsg.Describes

theorem segments (h : m.Describes base group) (hbuf : At buf base (group.flatMap Packet.data)) :
    m.segments buf = group := by
  have hbytes : (buf.drop m.base).take m.len = (group.map Packet.data).flatten := by
    rw [h.base, h.len, hbuf.read, List.flatMap_def]
  have hpos := h.uniform.length_pos
  rw [List.length_map] at hpos
  rw [GsoMsg.segments, hbytes, h.segment]
  split_ifs with hlen
  · simp only [h.uniform.cut_flatten, map_mk_data h.ecn]
  · obtain ⟨p, rfl⟩ := List.length_eq_one_iff.mp (by omega : group.length = 1)
    simp [← h.ecn p (by simp)]

end GsoMsg.Describes

/-- The kernel makes the packets of the messages again. -/
theorem Batches.segments (h : Batches base ms pkts)
    (hbuf : At buf base (pkts.flatMap Packet.data)) : ms.flatMap (·.segments buf) = pkts := by
  induction h with
  | nil => rfl
  | cons hm _ ih =>
    rw [List.flatMap_append, at_append] at hbuf
    rw [List.flatMap_cons, hm.segments hbuf.1, ih hbuf.2]

/-- The count is that of the segments that were sent. Once some were not, none may follow. -/
theorem Batches.sentLoop_reported (h : Batches base ms pkts)
    (hbuf : At buf base (pkts.flatMap Packet.data)) {n sent : Nat} {foundUnsent : Bool}
    (hn : n ≤ pkts.length) (hfound : foundUnsent = true → n = 0) :
    sentLoop (reported buf n ms) foundUnsent sent = .ok (sent + n) := by
  induction h generalizing n sent foundUnsent with
  | nil =>
    obtain rfl : n = 0 := by simpa using hn
    rfl
  | @cons base m group ms pkts hm hrest ih =>
    rw [List.flatMap_append, at_append] at hbuf
    have hpos := hm.uniform.length_pos
    have hsize := hm.uniform.pos
    have hbytes : ∀ k, ((group.take k).map Packet.size).sum =
        ((group.map Packet.data).take k).flatten.length := by
      intro k
      rw [← List.map_take, ← List.flatMap_def, Arrays.length_flatMap]
    have hlen : m.len = (group.map Packet.data).flatten.length := by
      rw [hm.len, List.flatMap_def]
    rw [List.length_map] at hpos
    rw [List.length_append] at hn
    rw [reported, hm.segments hbuf.1, sentLoop, hbytes]
    by_cases hall : group.length ≤ n
    · rw [List.take_of_length_le (by simpa using hall), hlen, if_neg (lt_irrefl _)]
      have hunsent : foundUnsent = false := by grind
      rw [hunsent, if_neg Bool.false_ne_true, ih hbuf.2 (by omega) (by simp), hm.gsoCount]
      congr 1
      omega
    · have hk : n < (group.map Packet.data).length := by simpa using hall
      have hlt := hm.uniform.length_take_lt hk
      rw [hm.uniform.length_take hk] at hlt ⊢
      rw [hlen, if_pos hlt, if_neg (by grind), if_neg (by simp; omega),
        ih hbuf.2 (by omega) (by omega), Nat.mul_div_cancel _ hsize]
      congr 1
      omega

/-! ## The loop -/

/-- The batch is `cur`, full packets with the ECN value of the next one, which joins them. -/
structure GsoBatch.Open (b : GsoBatch ε) (cur rest : List (Packet ε)) : Prop where
  gsoCount : b.gsoCount = cur.length
  batchBytes : b.batchBytes = (cur.flatMap Packet.data).length
  gsoSize : ∀ p ∈ cur, p.size = b.gsoSize
  fresh : cur = [] → b.gsoSize = 0
  joined : cur ≠ [] → 0 < b.gsoSize ∧
    ∃ p, rest.head? = some p ∧ p.size ≤ b.gsoSize ∧ ∀ q ∈ cur, q.ecn = p.ecn

/-- The batch is `cur`, full packets, and `p`. -/
structure GsoBatch.Collects (b : GsoBatch ε) (cur : List (Packet ε)) (p : Packet ε) : Prop where
  gsoCount : b.gsoCount = cur.length + 1
  batchBytes : b.batchBytes = ((cur ++ [p]).flatMap Packet.data).length
  gsoSize : ∀ q ∈ cur, q.size = b.gsoSize
  size_le : p.size ≤ b.gsoSize
  ecn : ∀ q ∈ cur, q.ecn = p.ecn

variable {b : GsoBatch ε} {cur rest : List (Packet ε)} {p q : Packet ε}

theorem GsoBatch.Open.add (h : b.Open cur (p :: rest)) (hpos : 0 < p.size) (hsize : p.size < 65536)
    (hcount : cur.length < 65535) : (b.add p.size).Collects cur p := by
  have hbytes : (b.add p.size).batchBytes = ((cur ++ [p]).flatMap Packet.data).length := by
    simp [GsoBatch.add, h.batchBytes, Packet.size]
  have hgsoCount : (b.add p.size).gsoCount = cur.length + 1 := by
    simp only [GsoBatch.add, h.gsoCount]
    omega
  by_cases hcur : cur = []
  · subst hcur
    have hgsoSize : (b.add p.size).gsoSize = p.size := by
      simp only [GsoBatch.add, h.fresh rfl, if_pos]
      omega
    exact ⟨hgsoCount, hbytes, by simp, hgsoSize.ge, by simp⟩
  · obtain ⟨hne, q, hq, hle, hecn⟩ := h.joined hcur
    obtain rfl : p = q := by simpa using hq
    have hgsoSize : (b.add p.size).gsoSize = b.gsoSize := if_neg hne.ne'
    exact ⟨hgsoCount, hbytes, hgsoSize ▸ h.gsoSize, hgsoSize ▸ hle, hecn⟩

/-- The next packet joins the batch. -/
theorem GsoBatch.Collects.joins (h : b.Collects cur p) (hpos : 0 < p.size)
    (hjoins : b.Joins p.size q.size p.ecn q.ecn) : b.Open (cur ++ [p]) (q :: rest) := by
  obtain ⟨hfull, hecn, hnext⟩ := hjoins
  have hle : q.size ≤ b.gsoSize := by omega
  have hgsoSize := h.gsoSize
  have hcurEcn := h.ecn
  refine ⟨by simp [h.gsoCount], h.batchBytes, ?_, by simp, ?_⟩
  · grind
  · refine fun _ => ⟨hfull ▸ hpos, q, rfl, hle, ?_⟩
    grind

/-- The batch ends. -/
theorem GsoBatch.Collects.describes (h : b.Collects cur p) (hpos : 0 < p.size) :
    ∃ m, (b.emit p.ecn).msgs = b.msgs ++ [m] ∧ m.Describes b.nextBuf (cur ++ [p]) := by
  refine ⟨_, rfl, rfl, h.batchBytes, ?_, by simp [h.gsoCount], ?_, by simp [h.gsoCount]⟩
  · intro q hq
    rcases List.mem_append.mp hq with hcur | hlast
    · exact h.ecn q hcur
    · rw [List.mem_singleton.mp hlast]
  · rw [List.map_append]
    refine Uniform.concat ?_ (List.length_pos_iff.mp hpos) h.size_le
    intro l hl
    obtain ⟨q, hq, rfl⟩ := List.mem_map.mp hl
    exact h.gsoSize q hq

theorem GsoBatch.open_emit (ecn : ε) (b : GsoBatch ε) (rest : List (Packet ε)) :
    (b.emit ecn).Open [] rest := ⟨rfl, rfl, by simp, fun _ => rfl, by simp⟩

/-- Each turn adds a packet to the batch, and ends the batch unless the next packet joins it. -/
theorem gsoLoop_spec [DecidableEq ε] [Inhabited ε] {a : Arrays ε} {i : Nat} (h : b.Open cur rest)
    (hsize : At a.size i (rest.map Packet.size)) (hecn : At a.ecn i (rest.map Packet.ecn))
    (hmsgs : b.msgs.length + rest.length ≤ maxBatch) (hcur : cur.length + rest.length ≤ maxBatch)
    (hbounds : ∀ p ∈ rest, 0 < p.size ∧ p.size < 65536) :
    ∃ b' new, gsoLoop a rest.length i b = .ok b' ∧ b'.msgs = b.msgs ++ new ∧
      Batches b.nextBuf new (cur ++ rest) := by
  induction rest generalizing b cur i with
  | nil =>
    obtain rfl : cur = [] := by
      by_contra hne
      obtain ⟨-, p, hp, -⟩ := h.joined hne
      simp at hp
    exact ⟨b, [], rfl, by simp, .nil⟩
  | cons p rest ih =>
    have hmax : maxBatch = 24 := rfl
    rw [List.length_cons] at hmsgs hcur
    obtain ⟨hpos, hlt⟩ := hbounds p (by simp)
    have hadd := h.add hpos hlt (by omega)
    have hsize' := (at_cons.mp hsize).2
    have hecn' := (at_cons.mp hecn).2
    have hrest := fun q hq => hbounds q (List.mem_cons_of_mem p hq)
    rw [List.length_cons, gsoLoop, if_neg (by omega)]
    simp only [hsize.getD, hecn.getD]
    split_ifs with hjoin
    · obtain ⟨hne, hjoin⟩ := hjoin
      obtain ⟨q, rest, rfl⟩ := List.exists_cons_of_length_pos (Nat.pos_of_ne_zero hne)
      rw [hsize'.getD, hecn'.getD] at hjoin
      have hlen : (cur ++ [p]).length = cur.length + 1 := by simp
      obtain ⟨b', new, hok, hnew, hbatches⟩ := ih (hadd.joins hpos hjoin) hsize' hecn'
        (by rw [GsoBatch.msgs_add]; omega) (by omega) hrest
      refine ⟨b', new, hok, hnew, ?_⟩
      rw [List.append_cons]
      exact hbatches
    · obtain ⟨m, hmsg, hm⟩ := hadd.describes hpos
      obtain ⟨b', new, hok, hnew, hbatches⟩ := ih (GsoBatch.open_emit p.ecn (b.add p.size) rest)
        hsize' hecn' (by rw [GsoBatch.length_msgs_emit, GsoBatch.msgs_add]; omega)
        (by rw [List.length_nil]; omega) hrest
      refine ⟨b', m :: new, hok, ?_, ?_⟩
      · rw [hnew, hmsg, List.append_assoc, GsoBatch.msgs_add, List.singleton_append]
      · rw [List.append_cons]
        refine .cons hm ?_
        rw [← hadd.batchBytes]
        exact hbatches

theorem gsoMessages_spec [DecidableEq ε] [Inhabited ε] {a : Arrays ε} (h : a.Holds pkts)
    (hlen : pkts.length ≤ maxBatch) (hbounds : ∀ p ∈ pkts, 0 < p.size ∧ p.size < 65536) :
    ∃ ms, gsoMessages a pkts.length = .ok ms ∧ Batches 0 ms pkts := by
  have hopen : GsoBatch.Open {} [] pkts := ⟨rfl, rfl, by simp, fun _ => rfl, by simp⟩
  obtain ⟨b, ms, hok, hmsgs, hbatches⟩ := gsoLoop_spec hopen h.size h.ecn (by simpa using hlen)
    (by simpa using hlen) hbounds
  refine ⟨ms, ?_, hbatches⟩
  rw [gsoMessages, hok, ok_bind, hmsgs]
  rfl

/-- The size at which the kernel says that it merged. -/
theorem MsgHdr.segment_eq {hdr : MsgHdr ε} {size : Nat} (hsize : size < 2147483648)
    (hgro : hdr.gro = [(size : Int)]) : hdr.segment true = size := by
  simp only [MsgHdr.segment, if_true, hgro, List.foldl_cons, List.foldl_nil]
  omega

/-- Packets of one size are found again in the buffer that they were merged into. -/
theorem processReceived_merged {size : Nat} {pieces : List Bytes} {hdr : MsgHdr ε}
    (h : Uniform size pieces) (hsize : size < 2147483648) (hwhole : hdr.truncated = false)
    (hgro : hdr.gro = [(size : Int)] ∨ hdr.gro = [] ∧ pieces.length = 1) :
    processReceived true pieces.flatten hdr = (pieces.map (⟨·, hdr.ecn⟩), pieces.length) := by
  have hpos := h.pos
  have hone : pieces.length = 1 →
      ([⟨pieces.flatten, hdr.ecn⟩], 1) = (pieces.map (Packet.mk · hdr.ecn), pieces.length) := by
    intro hlen
    obtain ⟨l, rfl⟩ := List.length_eq_one_iff.mp hlen
    simp
  unfold processReceived
  rw [if_neg (by simpa using h.flatten_ne_nil), if_neg (by simp [hwhole])]
  rcases hgro with hgro | ⟨hgro, hlen⟩
  · simp only [hdr.segment_eq hsize hgro]
    split_ifs with hfits
    · exact hone (h.length_eq_one (by omega))
    · rw [h.cut_flatten]
  · have hzero : hdr.segment true = 0 := by simp [MsgHdr.segment, hgro]
    rw [if_pos (.inl hzero)]
    exact hone hlen

/-- The kernel cuts the messages into the packets that were to be sent, whatever part of them it
sends is counted exactly, and what it merged on the way is cut again. -/
theorem gso_packets_exact [DecidableEq ε] [Inhabited ε] {a : Arrays ε} (h : a.Holds pkts)
    (hlen : 1 ≤ pkts.length ∧ pkts.length ≤ maxBatch)
    (hsize : ∀ p ∈ pkts, 1 ≤ p.size ∧ p.size ≤ 1472) :
    (∃ ms, gsoMessages a pkts.length = .ok ms ∧ ms.flatMap (·.segments a.buf) = pkts ∧
      ∀ n ≤ pkts.length, sentLoop (reported a.buf n ms) false 0 = .ok n) ∧
    ∀ (size : Nat) (pieces : List Bytes) (hdr : MsgHdr ε), Uniform size pieces →
      size < 2147483648 → hdr.truncated = false →
      (hdr.gro = [(size : Int)] ∨ hdr.gro = [] ∧ pieces.length = 1) →
      processReceived true pieces.flatten hdr =
        (pieces.map (⟨·, hdr.ecn⟩), pieces.length) := by
  refine ⟨?_, fun _ _ _ => processReceived_merged⟩
  have hbounds : ∀ p ∈ pkts, 0 < p.size ∧ p.size < 65536 := by
    intro p hp
    have := hsize p hp
    omega
  obtain ⟨ms, hok, hbatches⟩ := gsoMessages_spec h hlen.2 hbounds
  refine ⟨ms, hok, hbatches.segments h.buf, fun n hn => ?_⟩
  rw [hbatches.sentLoop_reported h.buf hn (by simp), Nat.zero_add]

/-- Two packets and a shorter one, then one with another ECN value; the kernel sends two. The first
three arrive as one buffer. -/
theorem gso_packets_exact_mixed :
    ∃ ms : List (GsoMsg Nat),
      gsoMessages ⟨[1, 2, 3, 4, 5, 6, 7], [2, 2, 1, 2], [0, 0, 0, 1]⟩ 4 = .ok ms ∧
      ms.flatMap (·.segments [1, 2, 3, 4, 5, 6, 7]) =
        [⟨[1, 2], 0⟩, ⟨[3, 4], 0⟩, ⟨[5], 0⟩, ⟨[6, 7], 1⟩] ∧
      sentLoop (reported [1, 2, 3, 4, 5, 6, 7] 2 ms) false 0 = .ok 2 ∧
      processReceived true [1, 2, 3, 4, 5] { gro := [2], ecn := 0 } =
        ([⟨[1, 2], 0⟩, ⟨[3, 4], 0⟩, ⟨[5], 0⟩], 3) := by
  have hholds : (⟨[1, 2, 3, 4, 5, 6, 7], [2, 2, 1, 2], [0, 0, 0, 1]⟩ : Arrays Nat).Holds
      [⟨[1, 2], 0⟩, ⟨[3, 4], 0⟩, ⟨[5], 0⟩, ⟨[6, 7], 1⟩] :=
    ⟨by unfold At; decide, by unfold At; decide, by unfold At; decide⟩
  obtain ⟨⟨ms, hok, hsegments, hsent⟩, hreceived⟩ :=
    gso_packets_exact hholds (by decide) (by decide)
  have huniform : Uniform 2 ([[1, 2], [3, 4], [5]] : List Bytes) :=
    .cons rfl (.cons rfl (.last (by decide) (by decide)))
  exact ⟨ms, hok, hsegments, hsent 2 (by decide),
    hreceived 2 [[1, 2], [3, 4], [5]] { gro := [2], ecn := 0 } huniform (by decide) rfl
      (.inl rfl)⟩

/-- A short packet joins only the second of two full ones. -/
example : (gsoMessages (⟨[], [4, 2, 2, 1], [0, 0, 0, 0]⟩ : Arrays Nat) 4).map
    (·.map fun m => (m.base, m.len, m.segment)) = .ok [(0, 4, none), (4, 5, some 2)] := by
  decide

end Libquic
