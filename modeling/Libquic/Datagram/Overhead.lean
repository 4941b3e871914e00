import Libquic.Datagram.MaxPiece

/-!
# Room for a datagram in a packet

The maximum piece is what a packet leaves once its overhead is taken off. The overhead is counted
for 0-RTT and for 1-RTT packets, and only the latter has the authentication tag in it. Runs of a
connection whose path keeps its payload size, and whose application keeps to the maximum size: no
datagram in the queue is ever too long for what is left of it to be sent.
-/
namespace Libquic

open Lib DatagramQueue

/-- `DATAGRAM_OVERHEAD_1RTT`: flags, dcid, packet number, tag, frame type and length -/
def datagramOverhead1Rtt : Nat := 1 + 20 + 4 + 16 + 1 + 2

/-- `DATAGRAM_OVERHEAD_0RTT`: flags, version, the two ids with their lengths, length, packet number,
frame type and length -/
def datagramOverhead0Rtt : Nat := 1 + 4 + 1 + 20 + 1 + 20 + 2 + 4 + 1 + 2

/-- A connection with a datagram channel. -/
structure DatagramConn (β : Type) where
  channel : QueueRun β
  /-- `ngtcp2_conn_get_path_max_tx_udp_payload_size` -/
  pathMax : Nat
  earlyData : Bool := false
  deriving DecidableEq, Repr

/-- What happens on such a connection. -/
inductive ConnOp (β : Type) where
  | send (data : List β)
  | fetch (preferSmall : Bool)
  | confirm
  | lookahead (n : Int)
  | earlyBegin
  | earlyRetry
  | earlyEnd (accepted : Bool)
  deriving DecidableEq, Repr

/-- The bytes of a packet that carries one piece and nothing else: the longest header of its type,
with `lengthField` bytes for the length in a long header, the type and length of the frame, what
`dgram::prepared` hands over, and the tag. -/
def packetSize {β : Type} (lengthField : Nat) (earlyData : Bool) (p : Prepared β) : Nat :=
  (if earlyData then 1 + 4 + 1 + 20 + 1 + 20 + lengthField + 4 else 1 + 20 + 4) + (1 + 2) +
    ((if p.splittingEnabled then 2 else 0) + p.payload.length) + 16

/-! ## Datagrams within a maximum -/

namespace Storage

variable {β : Type} {d d' : Storage β} {maxPiece maxPiece' : Nat} {splitting : Bool}

/-- The datagram was not too long when it came, and what is left of it can be sent. -/
structure Within (maxPiece : Nat) (splitting : Bool) (d : Storage β) : Prop where
  size_le : d.size ≤ maxPiece * (if splitting then 2 else 1)
  sendable : d.Sendable maxPiece splitting

theorem within_of_unsent (hsize : d.size ≤ maxPiece * (if splitting then 2 else 1))
    (hunsent : d.status = .unsent) : d.Within maxPiece splitting := by
  refine ⟨hsize, ?_⟩
  simpa only [Sendable, hunsent] using hsize

theorem Within.unsend (h : d.Within maxPiece splitting) : d.unsend.Within maxPiece splitting :=
  within_of_unsent h.size_le rfl

theorem Within.mono (h : d.Within maxPiece splitting) (hle : maxPiece ≤ maxPiece') :
    d.Within maxPiece' splitting := by
  have hmul := Nat.mul_le_mul_right (if splitting then 2 else 1) hle
  refine ⟨h.size_le.trans hmul, ?_⟩
  have hsend := h.sendable
  unfold Sendable at hsend ⊢
  cases hstatus : d.status <;> grind

theorem Within.resplit (h : d.Within maxPiece splitting) (hr : Resplit d d') :
    d'.Within maxPiece splitting := by
  refine ⟨?_, hr.sendable_iff.mpr h.sendable⟩
  have hsize : d'.size = d.size := congrArg List.length hr.payload
  exact hsize ▸ h.size_le

/-- What is within the maximum is not dropped. -/
theorem Within.not_unsendable (h : d.Within maxPiece splitting) (hfits : d.Fits splitting)
    (hmax : maxPiece * (if splitting then 2 else 1) < 2 ^ 64) :
    d.unsendable maxPiece splitting = false := by
  obtain ⟨hsize, hsend⟩ := h
  have hpos := hfits.splitPos
  unfold Sendable at hsend
  unfold unsendable
  cases hstatus : d.status with
  | sent => rfl
  | unsent =>
    simp only [decide_eq_false_iff_not, Nat.not_lt, Nat.mod_eq_of_lt hmax]
    exact hsize
  | sentFirst =>
    simp only [hstatus] at hsend
    have hle := hpos (.inl hstatus)
    have hsub : sizeSub d.size d.splitPos = d.size - d.splitPos := by
      unfold sizeSub
      omega
    simpa [hsub] using hsend
  | sentSecond => simpa [hstatus] using hsend

/-- A part was sent: the other one fits as well, if the datagram was split at the maximum. -/
theorem Within.mark {part : Part} (h : d.Within maxPiece splitting) (hleft : part.Left d)
    (hsplit : part ≠ .whole → SplitAt maxPiece d) (hsplitting : part ≠ .whole → splitting = true)
    (hmax : splitting = true → maxPiece < 2 ^ 16) :
    (part.mark d).Within maxPiece splitting := by
  refine ⟨h.size_le, ?_⟩
  have hsize := h.size_le
  unfold SplitAt at hsplit
  rw [Sendable, hleft.status_mark, Part.size_mark, Part.splitPos_mark]
  by_cases hstatus : d.status = .unsent
  · rw [if_pos hstatus]
    cases part <;> grind [Part.status]
  · rw [if_neg hstatus]
    trivial

/-- A datagram of which a part is gone was split at this maximum, and had to be. -/
def Halved (maxPiece : Nat) (d : Storage β) : Prop :=
  d.status = .sentFirst ∨ d.status = .sentSecond →
    d.splitPos = maxPiece % 2 ^ 16 ∧ maxPiece < d.size

theorem halved_of_unsent (h : d.status = .unsent) : d.Halved maxPiece := by
  simp [Halved, h]

theorem Halved.resplit (h : d.Halved maxPiece) (hr : Resplit d d') : d'.Halved maxPiece := by
  intro hhalf
  rw [hr.status] at hhalf
  have hsize : d'.size = d.size := congrArg List.length hr.payload
  rw [hsize, hr.splitPos (by rcases hhalf with hhalf | hhalf <;> simp [hhalf])]
  exact h hhalf

theorem halved_mark {part : Part} (hleft : part.Left d)
    (hsplit : part ≠ .whole → SplitAt maxPiece d) : (part.mark d).Halved maxPiece := by
  intro hhalf
  rw [hleft.status_mark] at hhalf
  split_ifs at hhalf with hunsent
  · refine hsplit ?_ hunsent
    rintro rfl
    simp [Part.status] at hhalf
  · simp at hhalf

end Storage

/-- The part is within a maximum of 16 bits if its datagram is. -/
theorem DatagramQueue.Picked.sizeIn_le {β : Type} {q : DatagramQueue β} {d : Storage β}
    {part : Part} {maxPiece : Nat} (h : Picked q maxPiece d part)
    (hd : d.Within maxPiece q.packetSplitting)
    (hmax : q.packetSplitting = true → maxPiece < 2 ^ 16) :
    part.sizeIn maxPiece d ≤ maxPiece := by
  obtain ⟨hsize, hsend⟩ := hd
  unfold Storage.Sendable at hsend
  cases part with
  | whole =>
    obtain ⟨-, hle⟩ := h.whole rfl
    rw [Part.sizeIn]
    split_ifs at hsize with hs
    · exact hle hs
    · omega
  | first =>
    rw [Part.sizeIn, Storage.splitFor]
    rcases h.first rfl with hstatus | hstatus <;> simp only [hstatus] at hsend ⊢
    · exact Nat.mod_le _ _
    · exact hsend
  | second =>
    have hs := h.splitting (by simp)
    have := hmax hs
    rw [Part.sizeIn, Storage.splitFor]
    rcases h.second rfl with hstatus | hstatus <;> simp only [hstatus] at hsend ⊢
    · rw [if_pos hs] at hsize
      rw [if_pos trivial]
      omega
    · exact hsend

/-! ## A channel within a maximum -/

namespace DatagramQueue

variable {β : Type} {q q' : DatagramQueue β}

theorem mem_confirmed {off : Nat} {d e : Storage β} {part : Part}
    (he : e ∈ (q.confirmed off d part).buf) : e ∈ q.buf ∨ e = part.mark d := by
  apply List.mem_or_eq_of_mem_set (i := q.head + off)
  unfold confirmed popped at he
  split_ifs at he
  · split at he
    · exact he
    · exact List.mem_of_mem_tail he
  · exact he

theorem splitting_confirmed (off : Nat) (d : Storage β) (part : Part) :
    (q.confirmed off d part).packetSplitting = q.packetSplitting := by
  unfold confirmed popped marked
  grind

theorem fetch_returns (hinv : Inv q) (hbytes : q.total ≤ q.unsentBytes) (maxPiece : Nat)
    (preferSmall : Bool) : ∃ out q', q.fetch maxPiece preferSmall = .ok (out, q') := by
  rw [fetch_eq hinv hbytes]
  obtain ⟨-, hnone⟩ | ⟨_, _, _, _, -, hsome⟩ :=
    choose_spec (hinv.trimmed maxPiece) maxPiece preferSmall
  · exact ⟨_, _, hnone⟩
  · exact ⟨_, _, hsome⟩

/-- What is in the queue after a fetch was there before, but for where it is split. -/
theorem fetch_mem {maxPiece : Nat} {preferSmall : Bool} {out : Option (Prepared β)} (hinv : Inv q)
    (hbytes : q.total ≤ q.unsentBytes) (h : q.fetch maxPiece preferSmall = .ok (out, q')) :
    ∀ e ∈ q'.buf, ∃ d ∈ q.buf, d.Resplit e := by
  have hsub {d : Storage β} (hd : d ∈ (q.trimmed maxPiece).buf) : d ∈ q.buf :=
    (List.dropWhile_sublist _).subset hd
  rw [fetch_eq hinv hbytes] at h
  obtain ⟨-, hnone⟩ | ⟨off, d, d', part, hc, hsome⟩ :=
    choose_spec (hinv.trimmed maxPiece) maxPiece preferSmall
  · cases hnone.symm.trans h
    exact fun e he => ⟨e, hsub he, .refl e⟩
  · cases hsome.symm.trans h
    intro e he
    rcases List.mem_or_eq_of_mem_set he with he | rfl
    · exact ⟨e, hsub he, .refl e⟩
    · exact ⟨d, hsub (List.mem_of_getElem? hc.get), hc.resplit⟩

/-- A retry keeps the datagrams, and makes some of them unsent again. -/
theorem earlyDataRetry_mem (h : q.earlyDataRetry = .ok q') :
    q'.packetSplitting = q.packetSplitting ∧
      ∀ e ∈ q'.buf, ∃ d ∈ q.buf, e = d ∨ e = d.unsend := by
  unfold earlyDataRetry at h
  split at h
  · cases h
    exact ⟨rfl, fun e he => ⟨e, he, .inl rfl⟩⟩
  · obtain ⟨bytes, -, h⟩ := bind_ok h
    cases h
    refine ⟨rfl, fun e he => ?_⟩
    rcases List.mem_append.mp he with he | he
    · obtain ⟨d, hd, rfl⟩ := List.mem_map.mp he
      exact ⟨d, List.mem_of_mem_take hd, .inr rfl⟩
    · exact ⟨e, List.mem_of_mem_drop he, .inl rfl⟩

theorem earlyDataEnd_mem {accepted : Bool} (h : q.earlyDataEnd accepted = .ok q') :
    q'.packetSplitting = q.packetSplitting ∧
      ∀ e ∈ q'.buf, ∃ d ∈ q.buf, e = d ∨ e = d.unsend := by
  unfold earlyDataEnd at h
  split at h
  · cases h
    exact ⟨rfl, fun e he => ⟨e, he, .inl rfl⟩⟩
  · cases accepted with
    | true =>
      rw [if_pos rfl] at h
      split_ifs at h
      cases h
      exact ⟨rfl, fun e he => ⟨e, List.mem_of_mem_drop he, .inl rfl⟩⟩
    | false =>
      rw [if_neg (by simp)] at h
      obtain ⟨r, hr, h⟩ := bind_ok h
      cases h
      obtain ⟨hsplitting, hmem⟩ := earlyDataRetry_mem hr
      exact ⟨hsplitting, hmem⟩

end DatagramQueue

namespace QueueRun

variable {β : Type} {s t : QueueRun β} {maxPiece maxPiece' : Nat}

/-- All datagrams are within the maximum, and the piece that can still be confirmed was split
there. -/
structure Within (maxPiece : Nat) (s : QueueRun β) : Prop where
  datagrams : ∀ d ∈ s.queue.buf, d.Within maxPiece s.queue.packetSplitting
  split : s.fetched = true → s.queue.lastSent ≠ .sent →
    ∀ d, s.queue.buf[s.queue.lastI]? = some d → SplitAt maxPiece d

theorem Within.mono (h : Within maxPiece s) (hle : maxPiece ≤ maxPiece')
    (hfetched : s.fetched = false) : Within maxPiece' s :=
  ⟨fun d hd => (h.datagrams d hd).mono hle, by simp [hfetched]⟩

theorem Within.send (h : Within maxPiece s) (hinv : Inv s) {data : List β}
    (hdata : data.length ≤ maxPiece * (if s.queue.packetSplitting then 2 else 1)) :
    Within maxPiece { s with datagrams := s.datagrams.sendImpl data } := by
  unfold Datagrams.sendImpl
  split_ifs
  · exact ⟨h.datagrams, h.split⟩
  · refine ⟨fun d hd => ?_, fun hfetched hpart d hd => ?_⟩
    · rcases List.mem_append.mp hd with hd | hd
      · exact h.datagrams d hd
      · obtain rfl := List.mem_singleton.mp hd
        exact Storage.within_of_unsent hdata rfl
    · obtain ⟨off, e, part, hready⟩ := hinv.ready hfetched
      have hget : s.queue.buf[s.queue.lastI]? = some e := hready.lastI ▸ hready.get
      have hlt := (List.getElem?_eq_some_iff.mp hget).1
      have hd : (s.queue.buf ++ [_])[s.queue.lastI]? = some d := hd
      rw [List.getElem?_append_left hlt] at hd
      exact h.split hfetched hpart d hd

/-- What stays behind is within the maximum. -/
theorem Within.fetch (h : Within maxPiece s) (hinv : Inv s) (preferSmall : Bool) :
    ∃ out q, s.queue.fetch maxPiece preferSmall = .ok (out, q) ∧
      Within maxPiece { s.withQueue q ((s.queue.dropped maxPiece).map Storage.unsent) with
        fetched := out.isSome } := by
  have hbytes : s.queue.total ≤ s.queue.unsentBytes := by
    have := hinv.bytes
    omega
  have htrimmed : ∀ d ∈ (s.queue.trimmed maxPiece).buf,
      d.Within maxPiece s.queue.packetSplitting := fun d hd =>
    h.datagrams d ((List.dropWhile_sublist _).subset hd)
  rw [fetch_eq hinv.queue hbytes]
  obtain ⟨-, hnone⟩ | ⟨off, d, d', part, hc, hsome⟩ :=
    choose_spec (hinv.queue.trimmed maxPiece) maxPiece preferSmall
  · exact ⟨none, _, hnone, ⟨htrimmed, by simp⟩⟩
  · have hd := htrimmed d (List.mem_of_getElem? hc.get)
    have hlt := (List.getElem?_eq_some_iff.mp hc.get).1
    refine ⟨_, _, hsome, ⟨fun e he => ?_, fun _ hpart e he => ?_⟩⟩
    · rcases List.mem_or_eq_of_mem_set he with he | rfl
      · exact htrimmed e he
      · exact hd.resplit hc.resplit
    · obtain rfl : d' = e := Option.some.inj ((List.getElem?_set_self hlt).symm.trans he)
      refine choose_splitAt hc hsome ?_
      rintro rfl
      exact hpart rfl

theorem Within.confirm (h : Within maxPiece s) (hinv : Inv s) (hfetched : s.fetched = true)
    (hmax : s.queue.packetSplitting = true → maxPiece < 2 ^ 16)
    (ht : step s .confirm = .ok t) : Within maxPiece t := by
  obtain ⟨off, d, part, hready, rfl⟩ := step_confirm hinv hfetched ht
  have hsplitting := splitting_confirmed (q := s.queue) off d part
  refine ⟨fun e he => ?_, by simp⟩
  change e.Within maxPiece (s.queue.confirmed off d part).packetSplitting
  rw [hsplitting]
  rcases mem_confirmed he with he | rfl
  · exact h.datagrams e he
  · have hd := h.datagrams d (List.mem_of_getElem? hready.get)
    refine hd.mark hready.left (fun hpart => ?_) hready.splitting hmax
    refine h.split hfetched ?_ d (hready.lastI ▸ hready.get)
    rw [hready.lastSent]
    cases part <;> simp_all [Part.status]

theorem Within.withQueue (h : Within maxPiece s) {q : DatagramQueue β} (sizes : List Nat)
    (hq : q.packetSplitting = s.queue.packetSplitting ∧
      ∀ e ∈ q.buf, ∃ d ∈ s.queue.buf, e = d ∨ e = d.unsend) :
    Within maxPiece (s.withQueue q sizes) := by
  obtain ⟨hsplitting, hmem⟩ := hq
  refine ⟨fun e he => ?_, by simp [QueueRun.withQueue]⟩
  change e.Within maxPiece q.packetSplitting
  rw [hsplitting]
  obtain ⟨d, hd, rfl | rfl⟩ := hmem e he
  · exact h.datagrams _ hd
  · exact (h.datagrams _ hd).unsend

theorem step_earlyEnd {accepted : Bool} (ht : step s (.earlyEnd accepted) = .ok t) :
    t.fetched = false := by
  obtain ⟨q, -, ht⟩ := bind_ok ht
  cases ht
  rfl

theorem step_packetSplitting {op : QueueOp β} (hinv : Inv s) (he : Enabled s op)
    (ht : step s op = .ok t) : t.queue.packetSplitting = s.queue.packetSplitting := by
  cases op with
  | send data =>
    cases ht
    unfold queue Datagrams.sendImpl
    split_ifs <;> rfl
  | fetch maxPiece preferSmall =>
    have hbytes : s.queue.total ≤ s.queue.unsentBytes := by
      have := hinv.bytes
      omega
    have hfetch := fetch_eq hinv.queue hbytes maxPiece preferSmall
    obtain ⟨-, hnone⟩ | ⟨off, d, d', part, hc, hsome⟩ :=
      choose_spec (hinv.queue.trimmed maxPiece) maxPiece preferSmall
    · rw [step_fetch (hfetch.trans hnone)] at ht
      cases ht
      rfl
    · rw [step_fetch (hfetch.trans hsome)] at ht
      cases ht
      rfl
  | confirm =>
    obtain ⟨off, d, part, hready, rfl⟩ := step_confirm hinv he ht
    exact splitting_confirmed off d part
  | lookahead n =>
    cases ht
    rfl
  | earlyBegin =>
    obtain ⟨q, hq, ht⟩ := bind_ok ht
    cases ht
    unfold earlyDataBegin at hq
    split_ifs at hq
    cases hq
    rfl
  | earlyRetry =>
    obtain ⟨q, hq, ht⟩ := bind_ok ht
    cases ht
    exact (earlyDataRetry_mem hq).1
  | earlyEnd accepted =>
    obtain ⟨q, hq, ht⟩ := bind_ok ht
    cases ht
    exact (earlyDataEnd_mem hq).1

/-- The operation keeps to this maximum. -/
def OpWithin (maxPiece : Nat) (splitting : Bool) : QueueOp β → Prop
  | .send data => data.length ≤ maxPiece * (if splitting then 2 else 1)
  | .fetch piece _ => piece = maxPiece
  | _ => True

theorem Within.step {op : QueueOp β} (h : Within maxPiece s) (hinv : Inv s) (he : Enabled s op)
    (hop : OpWithin maxPiece s.queue.packetSplitting op)
    (hmax : s.queue.packetSplitting = true → maxPiece < 2 ^ 16) (ht : step s op = .ok t) :
    Within maxPiece t := by
  cases op with
  | send data =>
    cases ht
    exact h.send hinv hop
  | fetch piece preferSmall =>
    cases hop
    obtain ⟨out, q, hfetch, hwithin⟩ := h.fetch hinv preferSmall
    rw [step_fetch hfetch] at ht
    cases ht
    exact hwithin
  | confirm => exact h.confirm hinv he hmax ht
  | lookahead n =>
    cases ht
    exact ⟨h.datagrams, h.split⟩
  | earlyBegin =>
    obtain ⟨hbuf, hfetched⟩ := step_earlyBegin ht
    exact ⟨by simp [hbuf], by simp [hfetched]⟩
  | earlyRetry =>
    obtain ⟨q, hq, ht⟩ := bind_ok ht
    cases ht
    exact h.withQueue _ (earlyDataRetry_mem hq)
  | earlyEnd accepted =>
    obtain ⟨q, hq, ht⟩ := bind_ok ht
    cases ht
    exact h.withQueue _ (earlyDataEnd_mem hq)

/-- All datagrams of which a part is gone were split at this maximum. -/
def Halved (maxPiece : Nat) (s : QueueRun β) : Prop := ∀ d ∈ s.queue.buf, d.Halved maxPiece

theorem Halved.step {op : QueueOp β} (h : Halved maxPiece s) (hinv : Inv s) (he : Enabled s op)
    (hwithin : Within maxPiece s) (ht : QueueRun.step s op = .ok t) : Halved maxPiece t := by
  have hkeep {q : DatagramQueue β} (hq : ∀ e ∈ q.buf, ∃ d ∈ s.queue.buf, e = d ∨ e = d.unsend) :
      ∀ e ∈ q.buf, e.Halved maxPiece := by
    intro e he
    obtain ⟨d, hd, rfl | rfl⟩ := hq e he
    · exact h _ hd
    · exact Storage.halved_of_unsent rfl
  cases op with
  | send data =>
    cases ht
    unfold Halved queue Datagrams.sendImpl
    split_ifs
    · exact h
    · intro d hd
      rcases List.mem_append.mp hd with hd | hd
      · exact h d hd
      · obtain rfl := List.mem_singleton.mp hd
        exact Storage.halved_of_unsent rfl
  | fetch piece preferSmall =>
    have hbytes : s.queue.total ≤ s.queue.unsentBytes := by
      have := hinv.bytes
      omega
    obtain ⟨out, q, hfetch⟩ := fetch_returns hinv.queue hbytes piece preferSmall
    rw [step_fetch hfetch] at ht
    cases ht
    intro e he
    obtain ⟨d, hd, hresplit⟩ := fetch_mem hinv.queue hbytes hfetch e he
    exact (h d hd).resplit hresplit
  | confirm =>
    obtain ⟨off, d, part, hready, rfl⟩ := step_confirm hinv he ht
    intro e he'
    rcases mem_confirmed he' with he' | rfl
    · exact h e he'
    · refine Storage.halved_mark hready.left fun hpart => ?_
      refine hwithin.split he ?_ d (hready.lastI ▸ hready.get)
      rw [hready.lastSent]
      cases part <;> simp_all [Part.status]
  | lookahead n =>
    cases ht
    exact h
  | earlyBegin =>
    obtain ⟨hbuf, -⟩ := step_earlyBegin ht
    simp [Halved, hbuf]
  | earlyRetry =>
    obtain ⟨q, hq, ht⟩ := bind_ok ht
    cases ht
    exact hkeep (earlyDataRetry_mem hq).2
  | earlyEnd accepted =>
    obtain ⟨q, hq, ht⟩ := bind_ok ht
    cases ht
    exact hkeep (earlyDataEnd_mem hq).2

theorem Within.dropped_eq_nil (h : Within maxPiece s) (hinv : Inv s)
    (hmax : maxPiece * (if s.queue.packetSplitting then 2 else 1) < 2 ^ 64) :
    s.queue.dropped maxPiece = [] := by
  unfold DatagramQueue.dropped
  cases hbuf : s.queue.buf with
  | nil => rfl
  | cons d rest =>
    have hd : d ∈ s.queue.buf := by simp [hbuf]
    have hkeep := (h.datagrams d hd).not_unsendable (hinv.queue.fits d hd) hmax
    exact List.takeWhile_cons_of_neg (by simp [hkeep])

end QueueRun

/-! ## Connections -/

namespace DatagramConn

variable {β : Type} {c c' : DatagramConn β}

def packetSplitting (c : DatagramConn β) : Bool := c.channel.queue.packetSplitting

/-- `get_max_datagram_piece`, with datagrams enabled. The subtraction is one of `size_t` values. -/
def getMaxDatagramPiece (c : DatagramConn β) : Nat :=
  sizeSub c.pathMax ((if c.earlyData then datagramOverhead0Rtt else datagramOverhead1Rtt) +
    if c.packetSplitting then 2 else 0)

def getMaxDatagramSize (c : DatagramConn β) : Nat :=
  c.getMaxDatagramPiece * (if c.packetSplitting then 2 else 1) % 2 ^ 64

/-- What it means for the channel. -/
def queueOp (c : DatagramConn β) : ConnOp β → QueueOp β
  | .send data => .send data
  | .fetch preferSmall => .fetch c.getMaxDatagramPiece preferSmall
  | .confirm => .confirm
  | .lookahead n => .lookahead n
  | .earlyBegin => .earlyBegin
  | .earlyRetry => .earlyRetry
  | .earlyEnd accepted => .earlyEnd accepted

/-- `_early_data` after the operation. -/
def earlyAfter (c : DatagramConn β) : ConnOp β → Bool
  | .earlyBegin => true
  | .earlyEnd _ => false
  | _ => c.earlyData

/-- The application keeps to the maximum size, and early data ends or is retried only if there is
any. -/
def Enabled (c : DatagramConn β) (op : ConnOp β) : Prop :=
  c.channel.Enabled (c.queueOp op) ∧
    match op with
    | .send data => data.length ≤ c.getMaxDatagramSize
    | .earlyRetry | .earlyEnd _ => c.earlyData = true
    | _ => True

def step (c : DatagramConn β) (op : ConnOp β) : Except Fault (DatagramConn β) := do
  let channel ← c.channel.step (c.queueOp op)
  .ok { c with channel := channel, earlyData := c.earlyAfter op }

/-- A connection over a path that lets at least 1200 bytes through. -/
def machine (β : Type) : Machine (DatagramConn β) (ConnOp β) Fault where
  initial c := (QueueRun.machine β).initial c.channel ∧ c.earlyData = false ∧
    1200 ≤ c.pathMax ∧ c.pathMax < 2 ^ 64
  enabled := Enabled
  step := step

/-- Nothing wraps on such a path. -/
theorem getMaxDatagramPiece_add (hmin : 1200 ≤ c.pathMax) (hmax : c.pathMax < 2 ^ 64) :
    c.getMaxDatagramPiece + (if c.packetSplitting then 2 else 0) +
      (if c.earlyData then 56 else 44) = c.pathMax := by
  unfold getMaxDatagramPiece sizeSub datagramOverhead0Rtt datagramOverhead1Rtt
  cases c.earlyData <;> cases c.packetSplitting <;> simp <;> omega

theorem getMaxDatagramSize_le :
    c.getMaxDatagramSize ≤ c.getMaxDatagramPiece * (if c.packetSplitting then 2 else 1) :=
  Nat.mod_le _ _

structure Inv (c : DatagramConn β) : Prop where
  channel : c.channel.Inv
  pathMin : 1200 ≤ c.pathMax
  pathMax : c.pathMax < 2 ^ 64
  within : (c.packetSplitting = true → c.pathMax < 2 ^ 16) →
    c.channel.Within c.getMaxDatagramPiece
  /-- After early data there may be datagrams that were split in it. -/
  halved : (c.packetSplitting = true → c.pathMax < 2 ^ 16) → c.earlyData = true →
    c.channel.Halved c.getMaxDatagramPiece

theorem Inv.piece_lt (h : Inv c) (hmax : c.packetSplitting = true → c.pathMax < 2 ^ 16) :
    c.packetSplitting = true → c.getMaxDatagramPiece < 2 ^ 16 := by
  intro hs
  have := hmax hs
  have := getMaxDatagramPiece_add h.pathMin h.pathMax
  omega

theorem getMaxDatagramPiece_congr (hpath : c'.pathMax = c.pathMax)
    (hearly : c'.earlyData = c.earlyData) (hsplitting : c'.packetSplitting = c.packetSplitting) :
    c'.getMaxDatagramPiece = c.getMaxDatagramPiece := by
  simp only [getMaxDatagramPiece, hpath, hearly, hsplitting]

/-- The maximum is larger without early data. -/
theorem getMaxDatagramPiece_le (hmin : 1200 ≤ c.pathMax) (hmax : c.pathMax < 2 ^ 64)
    (hpath : c'.pathMax = c.pathMax) (hsplitting : c'.packetSplitting = c.packetSplitting)
    (hearly : c.earlyData = true) (hearly' : c'.earlyData = false) :
    c.getMaxDatagramPiece ≤ c'.getMaxDatagramPiece := by
  have hold := getMaxDatagramPiece_add hmin hmax
  have hnew := getMaxDatagramPiece_add (c := c') (hpath ▸ hmin) (hpath ▸ hmax)
  simp only [hpath, hsplitting, hearly', Bool.false_eq_true, if_false] at hnew
  simp only [hearly, if_true] at hold
  omega

theorem Enabled.opWithin {op : ConnOp β} (he : Enabled c op) :
    QueueRun.OpWithin c.getMaxDatagramPiece c.packetSplitting (c.queueOp op) := by
  cases op with
  | send data => exact he.2.trans getMaxDatagramSize_le
  | fetch preferSmall => rfl
  | confirm | lookahead | earlyBegin | earlyRetry | earlyEnd => trivial

/-- Everything stays within the maximum, which shrinks only when the queue is empty. -/
theorem Inv.step {op : ConnOp β} (h : Inv c) (he : Enabled c op) :
    ∃ c', step c op = .ok c' ∧ Inv c' := by
  obtain ⟨channel, hchannel, hinv⟩ := QueueRun.inductive_inv.step _ _ h.channel he.1
  change c.channel.step (c.queueOp op) = .ok channel at hchannel
  have hsplitting : channel.queue.packetSplitting = c.packetSplitting :=
    QueueRun.step_packetSplitting h.channel he.1 hchannel
  refine ⟨{ c with channel := channel, earlyData := c.earlyAfter op }, ?_, hinv, h.pathMin,
    h.pathMax, fun hmax => ?_, fun hmax hearly => ?_⟩
  · rw [DatagramConn.step, hchannel, ok_bind]
  · have hmax : c.packetSplitting = true → c.pathMax < 2 ^ 16 := hsplitting ▸ hmax
    have hwithin := (h.within hmax).step h.channel he.1 he.opWithin (h.piece_lt hmax) hchannel
    cases op with
    | earlyBegin =>
      obtain ⟨hbuf, hfetched⟩ := QueueRun.step_earlyBegin hchannel
      exact ⟨by simp [hbuf], by simp [hfetched]⟩
    | earlyEnd accepted =>
      refine hwithin.mono ?_ (QueueRun.step_earlyEnd hchannel)
      exact getMaxDatagramPiece_le h.pathMin h.pathMax rfl hsplitting he.2 rfl
    | send | fetch | confirm | lookahead | earlyRetry =>
      have hsame : getMaxDatagramPiece { c with channel := channel } = c.getMaxDatagramPiece :=
        getMaxDatagramPiece_congr rfl rfl hsplitting
      exact hsame.symm ▸ hwithin
  · replace hmax : c.packetSplitting = true → c.pathMax < 2 ^ 16 := hsplitting ▸ hmax
    cases op with
    | earlyBegin =>
      obtain ⟨hbuf, -⟩ := QueueRun.step_earlyBegin hchannel
      simp [QueueRun.Halved, hbuf]
    | earlyEnd accepted => cases hearly
    | send | fetch | confirm | lookahead | earlyRetry =>
      have hsame : getMaxDatagramPiece { c with channel := channel } = c.getMaxDatagramPiece :=
        getMaxDatagramPiece_congr rfl rfl hsplitting
      exact hsame.symm ▸ (h.halved hmax hearly).step h.channel he.1 (h.within hmax) hchannel

theorem inductive_inv : (machine β).Inductive Inv where
  initial c hc := by
    obtain ⟨hchannel, -, hmin, hmax⟩ := hc
    obtain ⟨splitting, limit, hbuf⟩ := hchannel
    refine ⟨QueueRun.inv_initial ⟨splitting, limit, hbuf⟩, hmin, hmax, fun _ => ?_, fun _ _ => ?_⟩
    · rw [hbuf]
      exact ⟨by simp [QueueRun.queue], by simp⟩
    · rw [hbuf]
      simp [QueueRun.Halved, QueueRun.queue]
  step _ _ h he := h.step he

/-- How the size of a part of a datagram within a maximum of 16 bits compares, in early data, with
what the packet has room for. -/
theorem Inv.sizeIn_add_le_iff {d : Storage β} {part : Part} (h : Inv c)
    (hmax : c.packetSplitting = true → c.pathMax < 2 ^ 16) (hearly : c.earlyData = true)
    (hp : Picked (c.channel.queue.trimmed c.getMaxDatagramPiece) c.getMaxDatagramPiece d part)
    {n : Nat} (hn : 0 < n) :
    part.sizeIn c.getMaxDatagramPiece d + n ≤ c.getMaxDatagramPiece ↔
      d.size + n ≤ c.getMaxDatagramPiece ∨
        part = .second ∧ d.size + n ≤ 2 * c.getMaxDatagramPiece := by
  have hmem : d ∈ c.channel.queue.buf := (List.dropWhile_sublist _).subset hp.mem
  have hhalved := h.halved hmax hearly d hmem
  -- whatever its state, a datagram in two parts is split at the maximum and longer than it
  have hsplit (hpart : part ≠ .whole) : d.splitFor c.getMaxDatagramPiece = c.getMaxDatagramPiece ∧
      c.getMaxDatagramPiece < d.size := by
    have hmod := Nat.mod_eq_of_lt (h.piece_lt hmax (hp.splitting hpart))
    unfold Storage.splitFor
    split_ifs with hunsent
    · exact ⟨hmod, hp.long hpart hunsent⟩
    · have hhalf : d.status = .sentFirst ∨ d.status = .sentSecond := by
        cases part with
        | whole => exact absurd rfl hpart
        | first => exact .inr ((hp.first rfl).resolve_left hunsent)
        | second => exact .inl ((hp.second rfl).resolve_left hunsent)
      exact ⟨(hhalved hhalf).1.trans hmod, (hhalved hhalf).2⟩
  cases part with
  | whole => simp [Part.sizeIn]
  | first =>
    obtain ⟨hpos, hlong⟩ := hsplit (by simp)
    simp only [Part.sizeIn, hpos, reduceCtorEq, false_and, or_false]
    omega
  | second =>
    obtain ⟨hpos, hlong⟩ := hsplit (by simp)
    simp only [Part.sizeIn, hpos, true_and]
    omega

/-- A packet has room for the maximum, less what the overhead lacks. -/
theorem packetSize_le_iff (hmin : 1200 ≤ c.pathMax) (hmax : c.pathMax < 2 ^ 64) {p : Prepared β}
    (hsplitting : p.splittingEnabled = c.packetSplitting) (lengthField : Nat) :
    packetSize lengthField c.earlyData p ≤ c.pathMax ↔
      p.payload.length + (if c.earlyData then 14 + lengthField else 0) ≤
        c.getMaxDatagramPiece := by
  have hadd := getMaxDatagramPiece_add hmin hmax
  unfold packetSize
  rw [hsplitting]
  split_ifs at hadd ⊢ <;> omega

/-- While the path keeps its payload size and no datagram is longer than the maximum was. What a
piece has room for is the maximum, less, in early data, the 16 bytes of the tag (with a length
field of two bytes) that the overhead there lacks. On a path whose payload size has 16 bits no
datagram is dropped; after early data each piece fits into a packet of its own, and in early data
one of a datagram that is that much shorter than the maximum does, and the second part of one that
is that much shorter than two pieces. On larger paths the parts are those that a split position of
16 bits leaves. -/
theorem fetch_fits_iff (h : (machine β).Reachable c) (preferSmall : Bool) :
    ∃ out q, c.channel.queue.fetch c.getMaxDatagramPiece preferSmall = .ok (out, q) ∧
      ((c.packetSplitting = true → c.pathMax < 2 ^ 16) →
        c.channel.queue.dropped c.getMaxDatagramPiece = []) ∧
      ∀ p, out = some p → ∃ d part,
        (c.channel.queue.trimmed c.getMaxDatagramPiece).pick c.getMaxDatagramPiece preferSmall =
          some (d, part) ∧
        ∀ lengthField,
          (packetSize lengthField c.earlyData p ≤ c.pathMax ↔
            part.sizeIn c.getMaxDatagramPiece d + (if c.earlyData then 14 + lengthField else 0) ≤
              c.getMaxDatagramPiece) ∧
          ((c.packetSplitting = true → c.pathMax < 2 ^ 16) →
            (packetSize lengthField c.earlyData p ≤ c.pathMax ↔
              (c.earlyData = true → d.size + (14 + lengthField) ≤ c.getMaxDatagramPiece ∨
                part = .second ∧ d.size + (14 + lengthField) ≤ 2 * c.getMaxDatagramPiece))) := by
  have hinv := inductive_inv.reachable h
  have hbytes : c.channel.queue.total ≤ c.channel.queue.unsentBytes := by
    have := hinv.channel.bytes
    omega
  have htrimmed := hinv.channel.queue.trimmed c.getMaxDatagramPiece
  obtain ⟨out, q, hfetch⟩ :=
    fetch_returns hinv.channel.queue hbytes c.getMaxDatagramPiece preferSmall
  refine ⟨out, q, hfetch, fun hmax => ?_, ?_⟩
  · refine (hinv.within hmax).dropped_eq_nil hinv.channel ?_
    have := hinv.pathMax
    have hadd := getMaxDatagramPiece_add hinv.pathMin hinv.pathMax
    have hlt := hinv.piece_lt hmax
    change c.getMaxDatagramPiece * (if c.packetSplitting = true then 2 else 1) < 2 ^ 64
    split_ifs with hs
    · have := hlt hs
      omega
    · omega
  · rintro p rfl
    rw [fetch_eq hinv.channel.queue hbytes] at hfetch
    obtain ⟨d, part, hpick, hlength, hsplitting⟩ := choose_pick htrimmed hfetch
    refine ⟨d, part, hpick, fun lengthField => ?_⟩
    have hroom := packetSize_le_iff hinv.pathMin hinv.pathMax hsplitting lengthField
    rw [hlength] at hroom
    refine ⟨hroom, fun hmax => hroom.trans ?_⟩
    have hp := htrimmed.picked hpick
    cases hearly : c.earlyData with
    | false =>
      have hd := (hinv.within hmax).datagrams d ((List.dropWhile_sublist _).subset hp.mem)
      simpa using hp.sizeIn_le hd (hinv.piece_lt hmax)
    | true => simpa using hinv.sizeIn_add_le_iff hmax hearly hp (n := 14 + lengthField) (by omega)

/-- A connection in early data whose queue holds one datagram. -/
def earlyConn (splitting : Bool) (pathMax : Nat) (data : List β) : DatagramConn β where
  channel := { datagrams :=
    { sendBuffer :=
      { packetSplitting := splitting
        earlyDataHead := some 0
        unsentBytes := 0 + data.length
        buf := [{ baseDgid := 0, payload := data }] }
      nextDgramCounter := 1 } }
  pathMax := pathMax
  earlyData := true

theorem reachable_earlyConn {splitting : Bool} {pathMax : Nat} {data : List β}
    (hmin : 1200 ≤ pathMax) (hmax : pathMax < 2 ^ 64)
    (hdata : data.length ≤ (earlyConn splitting pathMax ([] : List β)).getMaxDatagramSize) :
    (machine β).Reachable (earlyConn splitting pathMax data) := by
  have hinit : (machine β).Reachable
      { channel := { datagrams := { sendBuffer := { packetSplitting := splitting } } }
        pathMax := pathMax } :=
    .initial ⟨⟨splitting, 2000000, rfl⟩, rfl, hmin, hmax⟩
  have hbegin := hinit.step (i := .earlyBegin) ⟨by rfl, trivial⟩ rfl
  exact hbegin.step (i := .send data) ⟨trivial, hdata⟩ rfl

theorem fetch_earlyConn (splitting : Bool) (pathMax : Nat) {maxPiece : Nat} {data : List β}
    (hdata : data.length = maxPiece) (hmax : maxPiece < 2 ^ 16) :
    ∃ p q, (earlyConn splitting pathMax data).channel.queue.fetch maxPiece false =
      .ok (some p, q) ∧ p.payload = data ∧ p.splittingEnabled = splitting := by
  have hkeep :
      Storage.unsendable maxPiece splitting { baseDgid := 0, payload := data } = false := by
    simp only [Storage.unsendable, Storage.size]
    cases splitting <;> simp <;> omega
  cases splitting <;>
    simp [earlyConn, QueueRun.queue, fetch, dropUnsendable, hkeep, choose, DatagramQueue.head,
      smallPiece, headPiece, prepare, Storage.size, hdata]

/-- On every path, with splitting or without, a datagram of the maximum piece size is handed over as
one piece in early data, and its packet is 16 bytes longer than the path lets through. -/
theorem early_piece_exceeds {splitting : Bool} {pathMax : Nat} (hmin : 1200 ≤ pathMax)
    (hmax : pathMax < 2 ^ 16) (b : β) :
    ∃ (c : DatagramConn β) (p : Prepared β) (q : DatagramQueue β),
      (machine β).Reachable c ∧ c.pathMax = pathMax ∧ c.packetSplitting = splitting ∧
      c.channel.queue.fetch c.getMaxDatagramPiece false = .ok (some p, q) ∧
      packetSize 2 c.earlyData p = c.pathMax + 16 := by
  obtain ⟨maxPiece, hpiece⟩ :
      ∃ n, (earlyConn splitting pathMax ([] : List β)).getMaxDatagramPiece = n := ⟨_, rfl⟩
  have hadd := getMaxDatagramPiece_add (c := earlyConn splitting pathMax ([] : List β)) hmin
    (Nat.lt_trans hmax (by decide))
  have hsplit : (earlyConn splitting pathMax ([] : List β)).packetSplitting = splitting := rfl
  have hpath : (earlyConn splitting pathMax ([] : List β)).pathMax = pathMax := rfl
  have hearly : (earlyConn splitting pathMax ([] : List β)).earlyData = true := rfl
  simp only [hpiece, hsplit, hpath, hearly, if_true] at hadd
  have hsame : (earlyConn splitting pathMax (List.replicate maxPiece b)).getMaxDatagramPiece =
      maxPiece := (getMaxDatagramPiece_congr rfl rfl rfl).trans hpiece
  have hreach : (machine β).Reachable
      (earlyConn splitting pathMax (List.replicate maxPiece b)) := by
    refine reachable_earlyConn hmin (Nat.lt_trans hmax (by decide)) ?_
    rw [List.length_replicate, getMaxDatagramSize, hpiece, hsplit]
    split_ifs <;> omega
  obtain ⟨p, q, hfetch, hpayload, hsplitting⟩ :=
    fetch_earlyConn splitting pathMax (List.length_replicate (n := maxPiece) (a := b)) (by omega)
  refine ⟨_, p, q, hreach, rfl, rfl, hsame.symm ▸ hfetch, ?_⟩
  change 1 + 4 + 1 + 20 + 1 + 20 + 2 + 4 + (1 + 2) +
    ((if p.splittingEnabled = true then 2 else 0) + p.payload.length) + 16 = pathMax + 16
  rw [hpayload, hsplitting, List.length_replicate]
  omega

/-- With the smallest path, splitting or not. -/
theorem early_piece_too_long :
    (∃ (c : DatagramConn Nat) (p : Prepared Nat) (q : DatagramQueue Nat),
      (machine Nat).Reachable c ∧ c.pathMax = 1200 ∧ c.packetSplitting = true ∧
      c.channel.queue.fetch c.getMaxDatagramPiece false = .ok (some p, q) ∧
      packetSize 2 c.earlyData p = c.pathMax + 16) ∧
    ∃ (c : DatagramConn Nat) (p : Prepared Nat) (q : DatagramQueue Nat),
      (machine Nat).Reachable c ∧ c.pathMax = 1200 ∧ c.packetSplitting = false ∧
      c.channel.queue.fetch c.getMaxDatagramPiece false = .ok (some p, q) ∧
      packetSize 2 c.earlyData p = c.pathMax + 16 :=
  ⟨early_piece_exceeds (by decide) (by decide) 0, early_piece_exceeds (by decide) (by decide) 0⟩

/-- Two bytes of early data have room. -/
theorem fetch_fits_iff_two_bytes :
    ∃ (c : DatagramConn Nat) (p : Prepared Nat) (q : DatagramQueue Nat),
      (machine Nat).Reachable c ∧ c.earlyData = true ∧
      c.channel.queue.fetch c.getMaxDatagramPiece false = .ok (some p, q) ∧
      p.payload = [1, 2] ∧ packetSize 2 c.earlyData p ≤ c.pathMax := by
  have hreach : (machine Nat).Reachable (earlyConn true 1200 [1, 2]) :=
    reachable_earlyConn (by decide) (by decide) (by decide)
  obtain ⟨out, q, hfetch, -, hfits⟩ := fetch_fits_iff hreach false
  have hout : ((earlyConn true 1200 [1, 2]).channel.queue.fetch
      (earlyConn true 1200 [1, 2]).getMaxDatagramPiece false).toOption.map (·.1.map (·.payload)) =
      some (some [1, 2]) := by decide
  rw [hfetch] at hout
  obtain ⟨p, rfl, hp⟩ := Option.map_eq_some_iff.mp (Option.some.inj hout)
  obtain ⟨d, part, hpick, hroom⟩ := hfits p rfl
  have hd : d.size = 2 := by
    have hview : ((earlyConn true 1200 [1, 2]).channel.queue.trimmed
        (earlyConn true 1200 [1, 2]).getMaxDatagramPiece).pick
        (earlyConn true 1200 [1, 2]).getMaxDatagramPiece false =
        some (⟨0, .unsent, 65535, [1, 2]⟩, .whole) := by decide
    cases hview.symm.trans hpick
    rfl
  refine ⟨_, p, q, hreach, rfl, hfetch, hp, ((hroom 2).2 (by decide)).mpr fun _ => .inl ?_⟩
  rw [hd]
  decide

end DatagramConn

end Libquic
