import Libquic.Datagram.QueueSpec
import Libquic.Datagram.Reassembly

/-!
# Datagrams from queue to reassembly buffer

A sender that splits datagrams, a channel that keeps pieces in order, and a receiver. Datagrams
are numbered in the order in which they are queued, so that the counters of their ids are these
numbers modulo 2^14.
-/
namespace Libquic

open Lib DatagramQueue RotatingBuffer

/-! ## On the wire -/

/-- `oxenc::write_host_as_big` of 16 bits -/
def writeHostAsBig (id : Nat) : List UInt8 := [UInt8.ofNat (id >>> 8), UInt8.ofNat id]

/-- `oxenc::load_big_to_host` of 16 bits -/
def loadBigToHost (high low : UInt8) : Nat := high.toNat <<< 8 ||| low.toNat

/-- The buffers of a `prepared`, one after the other. -/
def Prepared.wire (p : Prepared UInt8) : List UInt8 :=
  if p.splittingEnabled then writeHostAsBig p.id ++ p.payload else p.payload

/-- `recv_datagram` on a connection with splitting. What is too short is ignored. -/
def RotatingBuffer.recvWire (o : DatagramOptions) (data : List UInt8) (x : RotatingBuffer UInt8) :
    Except Fault (Option (List UInt8) × RotatingBuffer UInt8) :=
  match data with
  | high :: low :: rest => x.recvDatagram o (loadBigToHost high low) rest
  | _ => .ok (none, x)

theorem loadBigToHost_write {id : Nat} (h : id < 2 ^ 16) :
    loadBigToHost (UInt8.ofNat (id >>> 8)) (UInt8.ofNat id) = id := by
  have hor : ∀ a b : Nat, b < 2 ^ 8 → a <<< 8 ||| b = 2 ^ 8 * a + b := fun a b hb => by
    rw [Nat.shiftLeft_eq, Nat.mul_comm, ← Nat.two_pow_add_eq_or_of_lt hb]
  have hlow : (UInt8.ofNat id).toNat = id % 256 := UInt8.toNat_ofNat'
  have hhigh : (UInt8.ofNat (id >>> 8)).toNat = id >>> 8 % 256 := UInt8.toNat_ofNat'
  rw [loadBigToHost, hor _ _ (by omega), hlow, hhigh, Nat.shiftRight_eq_div_pow]
  omega

theorem recvWire_wire {o : DatagramOptions} {id : Nat} (h : id < 2 ^ 16) (payload : List UInt8)
    (x : RotatingBuffer UInt8) :
    x.recvWire o (Prepared.wire ⟨true, id, payload⟩) = x.recvDatagram o id payload := by
  simp only [Prepared.wire, if_true, writeHostAsBig, List.cons_append, List.nil_append, recvWire,
    loadBigToHost_write h]

/-- The receiver takes everything in the channel. -/
def RotatingBuffer.recvAll (o : DatagramOptions) :
    List (List UInt8) → RotatingBuffer UInt8 → Except Fault (List (List UInt8) × RotatingBuffer UInt8)
  | [], x => .ok ([], x)
  | data :: rest, x => do
    let (out, x) ← x.recvWire o data
    let (outs, x) ← recvAll o rest x
    .ok (out.toList ++ outs, x)

theorem recvAll_append {o : DatagramOptions} {channel : List (List UInt8)} {data : List UInt8}
    {x y z : RotatingBuffer UInt8} {outs : List (List UInt8)} {out : Option (List UInt8)}
    (h : x.recvAll o channel = .ok (outs, y)) (hdata : y.recvWire o data = .ok (out, z)) :
    x.recvAll o (channel ++ [data]) = .ok (outs ++ out.toList, z) := by
  induction channel generalizing x outs with
  | nil =>
    obtain ⟨rfl, rfl⟩ := Prod.mk.inj (Except.ok.inj h)
    simp [recvAll, hdata]
  | cons first rest ih =>
    simp only [recvAll] at h
    obtain ⟨⟨out₁, x₁⟩, hfirst, h⟩ := bind_ok h
    obtain ⟨⟨outs₁, x₂⟩, hrest, h⟩ := bind_ok h
    obtain ⟨rfl, rfl⟩ := Prod.mk.inj (Except.ok.inj h)
    simp only [List.cons_append, recvAll, hfirst, ok_bind, ih hrest, List.append_assoc]

/-! ## A piece arrives -/

/-- The halves of a datagram that are gone. -/
def Storage.halves {β : Type} (d : Storage β) (first : Bool) : Option (List β) :=
  if first then if d.status.hasFirst then some (Part.first.data d) else none
  else if d.status.hasSecond then some (Part.second.data d) else none

/-- What has arrived, after a part of datagram `n`. -/
def Part.arrives {β : Type} (arrived : Nat → Bool → Option (List β)) (n : Nat) (d : Storage β) :
    Part → Nat → Bool → Option (List β)
  | .whole => arrived
  | .first => record arrived n true (Part.first.data d)
  | .second => record arrived n false (Part.second.data d)

/-- What a part completes. -/
def Part.completes {β : Type} (part : Part) (d : Storage β) : Option (List β) :=
  if (part.mark d).status = .sent then some d.payload else none

theorem dgid_or (n bits : Nat) : dgid n 0 ||| bits = dgid n bits := by
  rw [dgid, dgid, Nat.or_zero]

theorem Part.bits_lt (part : Part) : part.bits < 4 := by
  cases part <;> decide

section Arrives

variable {o : DatagramOptions} {x : RotatingBuffer UInt8} {seen : Option Nat}
  {arrived : Nat → Bool → Option (List UInt8)} {n : Nat} {d : Storage UInt8} {part : Part}

theorem recvDatagram_whole {z : RotatingBuffer UInt8} (h : x.observe o (dgid n 0) = .ok z)
    (data : List UInt8) : x.recvDatagram o (dgid n 0) data = .ok (some data, z) := by
  have hbits : dgid n 0 % 4 = 0 := by
    rw [dgid_eq n (by decide)]
    omega
  rw [recvDatagram, if_pos hbits, h, ok_bind]

theorem recvDatagram_split (first : Bool) (data : List UInt8) :
    x.recvDatagram o (dgid n (splitBits first)) data =
      x.receive o data (dgid n (splitBits first)) := by
  have hbits : dgid n (splitBits first) % 4 ≠ 0 := by
    rw [dgid_eq n (splitBits_lt first)]
    cases first <;> simp [splitBits, dgidSplitFirst, dgidSplitSecond]
  rw [recvDatagram, if_neg hbits]

/-- A part that is still to be sent arrives, and completes the datagram if it is the last one. -/
theorem recvWire_part (hwf : Wf o x) (htracks : Tracks o x seen arrived)
    (hwindow : ∀ m ∈ seen, o.InWindow m n) (hclose : newer seen n ≤ n + o.blockSize)
    (hbase : d.baseDgid = dgid n 0) (hleft : part.Left d) (hhalves : arrived n = d.halves) :
    ∃ z, x.recvWire o (Prepared.wire ⟨true, d.baseDgid ||| part.bits, part.data d⟩) =
        .ok (part.completes d, z) ∧ Wf o z ∧
      Tracks o z (some (newer seen n)) (part.arrives arrived n d) := by
  have hheld : newer seen n / o.blockSize ≤ n / o.blockSize + 1 := by
    have hpos : 0 < o.blockSize := by have := o.blockSize_bounds; omega
    exact (Nat.div_le_div_right hclose).trans (Nat.add_div_right n hpos).le
  rw [hbase, dgid_or, recvWire_wire (dgid_lt n part.bits_lt)]
  cases part with
  | whole =>
    have hstatus : d.status = .unsent := hleft
    obtain ⟨z, hz, hwf', htracks'⟩ := htracks.observe hwf hwindow
    refine ⟨z, (recvDatagram_whole hz _).trans ?_, hwf', htracks'⟩
    simp [Part.completes, hleft.status_mark, Part.status, hstatus, Part.data]
  | first =>
    have hnew : arrived n true = none := by
      rcases hleft.1 with hstatus | hstatus <;>
        simp [hhalves, Storage.halves, hstatus, SendStatus.hasFirst]
    obtain ⟨z, hz, hwf', htracks'⟩ := htracks.receive hwf hwindow hnew (Part.first.data d)
    refine ⟨z, (recvDatagram_split true _).trans (hz.trans ?_), hwf', htracks'⟩
    rcases hleft.1 with hstatus | hstatus <;>
      simp [completed, hheld, hhalves, Storage.halves, hstatus, join, Part.completes,
        hleft.status_mark, Part.status, SendStatus.hasSecond, Part.data]
  | second =>
    have hnew : arrived n false = none := by
      rcases hleft.1 with hstatus | hstatus <;>
        simp [hhalves, Storage.halves, hstatus, SendStatus.hasSecond]
    obtain ⟨z, hz, hwf', htracks'⟩ := htracks.receive hwf hwindow hnew (Part.second.data d)
    refine ⟨z, (recvDatagram_split false _).trans (hz.trans ?_), hwf', htracks'⟩
    rcases hleft.1 with hstatus | hstatus <;>
      simp [completed, hheld, hhalves, Storage.halves, hstatus, join, Part.completes,
        hleft.status_mark, Part.status, SendStatus.hasFirst, Part.data]

theorem Part.arrives_of_ne {m : Nat} (h : m ≠ n) :
    part.arrives arrived n d m = arrived m := by
  cases part <;> simp [Part.arrives, record, h]

/-- As long as a part is missing, what has arrived is what is marked as sent. -/
theorem Part.arrives_self (hhalves : arrived n = d.halves)
    (hleft : part.Left d) (hsent : (part.mark d).status ≠ .sent) :
    part.arrives arrived n d n = (part.mark d).halves := by
  funext first
  cases part with
  | whole =>
    have hstatus : d.status = .unsent := hleft
    simp [hleft.status_mark, hstatus, Part.status] at hsent
  | first =>
    rcases hleft.1 with hstatus | hstatus <;> cases first <;>
      simp_all [Part.arrives, record, Storage.halves, hleft.status_mark, Part.status,
        SendStatus.hasFirst, SendStatus.hasSecond, Part.data]
  | second =>
    rcases hleft.1 with hstatus | hstatus <;> cases first <;>
      simp_all [Part.arrives, record, Storage.halves, hleft.status_mark, Part.status,
        SendStatus.hasFirst, SendStatus.hasSecond, Part.data]

end Arrives

/-! ## The two ends -/

/-- A sender, a receiver and the pieces on their way, with the history of the sender. -/
structure Transfer where
  sender : Datagrams UInt8 := { sendBuffer := { packetSplitting := true } }
  /-- The piece that was fetched last, unless it has been confirmed. -/
  fetched : Option (Prepared UInt8) := none
  channel : List (List UInt8) := []
  receiver : RotatingBuffer UInt8 := {}
  delivered : List (List UInt8) := []
  /-- The payloads of all datagrams that were queued. -/
  queued : List (List UInt8) := []
  /-- How many have left the queue. -/
  gone : Nat := 0
  /-- How many of these were dropped since the last one that was fully sent. -/
  dropRun : Nat := 0
  /-- The numbers of those that were fully sent. -/
  completed : List Nat := []

inductive TransferOp where
  | send (data : List UInt8)
  | fetch (maxPiece : Nat) (preferSmall : Bool)
  | confirm
  | lookahead (n : Int)
  | deliver
  deriving DecidableEq, Repr

namespace Transfer

variable {o : DatagramOptions} {L : Nat} {s t : Transfer}

def queue (s : Transfer) : DatagramQueue UInt8 := s.sender.sendBuffer

/-- The lookahead stays within `L`, and fewer than 4096 datagrams in a row are dropped. -/
def Enabled (L : Nat) (s : Transfer) : TransferOp → Prop
  | .send _ => True
  | .fetch maxPiece _ => 1 ≤ maxPiece ∧ maxPiece ≤ 65535 ∧
      s.dropRun + (s.queue.dropped maxPiece).length < 4096
  | .confirm => s.fetched ≠ none
  | .lookahead n => (s.sender.setSplitDatagramLookahead n).sendBuffer.splitLookahead ≤ L
  | .deliver => s.channel ≠ []

/-- The datagram at the front has left the queue if there is one less. -/
def confirmSent (p : Prepared UInt8) (sender : Datagrams UInt8) (s : Transfer) : Transfer :=
  let s' := { s with sender := sender, fetched := none, channel := s.channel ++ [p.wire] }
  if sender.sendBuffer.buf.length < s.queue.buf.length then
    { s' with gone := s.gone + 1, dropRun := 0, completed := s.completed ++ [s.gone] }
  else s'

def step (o : DatagramOptions) (s : Transfer) : TransferOp → Except Fault Transfer
  | .send data => .ok { s with
      sender := s.sender.sendImpl data
      queued := if s.sender.dgramQueueLimit < s.sender.unsentImpl then s.queued
        else s.queued ++ [data] }
  | .fetch maxPiece preferSmall => do
    let (prepared, sender) ← s.sender.pending maxPiece preferSmall
    .ok { s with
      sender := sender
      fetched := prepared
      gone := s.gone + (s.queue.dropped maxPiece).length
      dropRun := s.dropRun + (s.queue.dropped maxPiece).length }
  | .confirm =>
    match s.fetched with
    | none => .ok s
    | some p => do
      let sender ← s.sender.confirmDatagramSent
      .ok (s.confirmSent p sender)
  | .lookahead n => .ok { s with sender := s.sender.setSplitDatagramLookahead n }
  | .deliver =>
    match s.channel with
    | [] => .ok s
    | data :: rest => do
      let (out, receiver) ← s.receiver.recvWire o data
      .ok { s with
        channel := rest
        receiver := receiver
        delivered := s.delivered ++ out.toList }

/-- Any queue limit is possible. -/
def machine (o : DatagramOptions) (L : Nat) : Machine Transfer TransferOp Fault where
  initial s := ∃ limit, s = { sender := {
    sendBuffer := { packetSplitting := true }
    dgramQueueLimit := limit } }
  enabled := Enabled L
  step := step o

/-! ## The invariant -/

/-- The queue holds the datagrams from number `gone` on. -/
structure Numbered (gone : Nat) (queued : List (List UInt8)) (buf : List (Storage UInt8)) : Prop where
  length : gone + buf.length = queued.length
  base : ∀ k d, buf[k]? = some d → d.baseDgid = dgid (gone + k) 0
  payload : ∀ k d, buf[k]? = some d → queued[gone + k]? = some d.payload

/-- What has been sent of the datagrams in the queue, and nothing else of them, has arrived. -/
structure Linked (bound gone dropRun : Nat) (buf : List (Storage UInt8)) (seen : Option Nat)
    (arrived : Nat → Bool → Option (List UInt8)) : Prop where
  seen_le : ∀ m ∈ seen, m ≤ gone + bound
  le_seen : ∀ m ∈ seen, gone ≤ m + 1 + dropRun
  halves : ∀ k d, buf[k]? = some d → arrived (gone + k) = d.halves
  unsent : ∀ n first, gone + buf.length ≤ n → arrived n first = none

section Lists

variable {bound gone dropRun k : Nat} {queued : List (List UInt8)} {buf : List (Storage UInt8)}
  {seen : Option Nat} {arrived : Nat → Bool → Option (List UInt8)} {d d' : Storage UInt8}

theorem Numbered.append (h : Numbered gone queued buf) (data : List UInt8) :
    Numbered gone (queued ++ [data])
      (buf ++ [{ baseDgid := dgid queued.length 0, payload := data }]) where
  length := by
    have := h.length
    simp only [List.length_append, List.length_singleton]
    omega
  base := by
    intro k d hd
    rcases Nat.lt_or_ge k buf.length with hk | hk
    · rw [List.getElem?_append_left hk] at hd
      exact h.base k d hd
    · rw [List.getElem?_append_right hk, List.getElem?_singleton] at hd
      have := h.length
      grind
  payload := by
    intro k d hd
    have := h.length
    rcases Nat.lt_or_ge k buf.length with hk | hk
    · rw [List.getElem?_append_left hk] at hd
      rw [List.getElem?_append_left (by omega)]
      exact h.payload k d hd
    · rw [List.getElem?_append_right hk, List.getElem?_singleton] at hd
      rw [List.getElem?_append_right (by omega), List.getElem?_singleton]
      grind

theorem Linked.append (h : Linked bound gone dropRun buf seen arrived) (hd : d.status = .unsent) :
    Linked bound gone dropRun (buf ++ [d]) seen arrived where
  seen_le := h.seen_le
  le_seen := h.le_seen
  halves := by
    intro k e he
    rcases Nat.lt_or_ge k buf.length with hk | hk
    · rw [List.getElem?_append_left hk] at he
      exact h.halves k e he
    · rw [List.getElem?_append_right hk, List.getElem?_singleton] at he
      obtain rfl : d = e := by grind
      funext first
      rw [h.unsent (gone + k) first (by omega)]
      cases first <;> simp [Storage.halves, hd, SendStatus.hasFirst, SendStatus.hasSecond]
  unsent n first hn := h.unsent n first (by simp at hn; omega)

theorem Numbered.drop (h : Numbered gone queued buf) (hk : k ≤ buf.length) :
    Numbered (gone + k) queued (buf.drop k) where
  length := by
    have := h.length
    rw [List.length_drop]
    omega
  base := by
    intro j d hd
    rw [List.getElem?_drop] at hd
    rw [Nat.add_assoc]
    exact h.base _ d hd
  payload := by
    intro j d hd
    rw [List.getElem?_drop] at hd
    rw [Nat.add_assoc]
    exact h.payload _ d hd

theorem Linked.drop (h : Linked bound gone dropRun buf seen arrived) (hk : k ≤ buf.length) :
    Linked bound (gone + k) (dropRun + k) (buf.drop k) seen arrived where
  seen_le m hm := (h.seen_le m hm).trans (by omega)
  le_seen m hm := by have := h.le_seen m hm; omega
  halves := by
    intro j d hd
    rw [List.getElem?_drop] at hd
    rw [Nat.add_assoc]
    exact h.halves _ d hd
  unsent n first hn := h.unsent n first (by rw [List.length_drop] at hn; omega)

theorem getElem?_set_cases {e : Storage UInt8} {j : Nat} (he : (buf.set k d')[j]? = some e) :
    (j = k ∧ e = d') ∨ (j ≠ k ∧ buf[j]? = some e) := by
  rw [List.getElem?_set] at he
  split_ifs at he with hjk
  · exact .inl ⟨hjk.symm, (Option.some.inj he).symm⟩
  · exact .inr ⟨Ne.symm hjk, he⟩

/-- One datagram in the queue changes, but keeps its number. -/
theorem Numbered.set (h : Numbered gone queued buf) (hd : buf[k]? = some d)
    (hbase : d'.baseDgid = d.baseDgid) (hpayload : d'.payload = d.payload) :
    Numbered gone queued (buf.set k d') where
  length := by rw [List.length_set]; exact h.length
  base := by
    intro j e he
    rcases getElem?_set_cases he with ⟨rfl, rfl⟩ | ⟨-, he⟩
    · rw [hbase]
      exact h.base j d hd
    · exact h.base j e he
  payload := by
    intro j e he
    rcases getElem?_set_cases he with ⟨rfl, rfl⟩ | ⟨-, he⟩
    · rw [hpayload]
      exact h.payload j d hd
    · exact h.payload j e he

theorem resplit_halves (h : d.Resplit d') : d'.halves = d.halves := by
  funext first
  by_cases hstatus : d.status = .unsent
  · cases first <;>
      simp [Storage.halves, h.status, hstatus, SendStatus.hasFirst, SendStatus.hasSecond]
  · simp only [Storage.halves, h.status, Part.data, h.payload, h.splitPos hstatus]

theorem Linked.set (h : Linked bound gone dropRun buf seen arrived) (hd : buf[k]? = some d)
    (hhalves : d'.halves = d.halves) :
    Linked bound gone dropRun (buf.set k d') seen arrived where
  seen_le := h.seen_le
  le_seen := h.le_seen
  halves := by
    intro j e he
    rcases getElem?_set_cases he with ⟨rfl, rfl⟩ | ⟨-, he⟩
    · rw [hhalves]
      exact h.halves j d hd
    · exact h.halves j e he
  unsent n first hn := h.unsent n first (by rwa [List.length_set] at hn)

/-- A piece of the queue is close enough to everything that came before it. -/
theorem Linked.inWindow (h : Linked bound gone dropRun buf seen arrived)
    (hsize : bound + 2 < o.blockSize) (hrun : dropRun < 4096) (hk : k ≤ bound) :
    (∀ m ∈ seen, o.InWindow m (gone + k)) ∧ newer seen (gone + k) ≤ gone + k + o.blockSize := by
  have hmax := o.blockSize_bounds.2
  have hle := o.reorderRange_le
  have hge : o.blockSize * 2 ≤ o.reorderRange := by
    rw [DatagramOptions.reorderRange, Nat.mul_comm]
    exact Nat.mul_le_mul_right _ o.reorderBlocks_ge
  refine ⟨fun m hm => ?_, ?_⟩
  · have hseen := h.seen_le m hm
    have hseen' := h.le_seen m hm
    exact ⟨fun _ => by omega, fun _ => by omega⟩
  · cases hseen : seen with
    | none => simp [newer]
    | some m =>
      have := h.seen_le m hseen
      simp only [newer, Option.elim_some]
      omega

theorem le_newer (seen : Option Nat) (n : Nat) : n ≤ newer seen n := by
  cases seen <;> simp [newer]

theorem Linked.newer_le (h : Linked bound gone dropRun buf seen arrived) (hk : k ≤ bound) :
    newer seen (gone + k) ≤ gone + bound := by
  cases hseen : seen with
  | none => simpa [newer] using hk
  | some m =>
    have := h.seen_le m hseen
    simp only [newer, Option.elim_some]
    omega

theorem Linked.part {part : Part} (h : Linked bound gone dropRun buf seen arrived)
    (hd : buf[k]? = some d) (hleft : part.Left d) (hk : k ≤ bound)
    (hsent : (part.mark d).status ≠ .sent) :
    Linked bound gone dropRun (buf.set k (part.mark d)) (some (newer seen (gone + k)))
      (part.arrives arrived (gone + k) d) where
  seen_le := by
    rintro _ ⟨rfl⟩
    exact h.newer_le hk
  le_seen := by
    rintro _ ⟨rfl⟩
    have := le_newer seen (gone + k)
    omega
  halves := by
    intro j e he
    rcases getElem?_set_cases he with ⟨rfl, rfl⟩ | ⟨hne, he⟩
    · exact Part.arrives_self (h.halves j d hd) hleft hsent
    · rw [Part.arrives_of_ne (by omega)]
      exact h.halves j e he
  unsent n first hn := by
    have hlt := (List.getElem?_eq_some_iff.mp hd).1
    rw [List.length_set] at hn
    rw [Part.arrives_of_ne (by omega)]
    exact h.unsent n first hn

/-- The last part of the datagram in front. -/
theorem Linked.lastPart (h : Linked bound gone dropRun buf seen arrived) (part : Part)
    (d : Storage UInt8) :
    Linked bound (gone + 1) 0 buf.tail (some (newer seen gone)) (part.arrives arrived gone d) where
  seen_le := by
    rintro _ ⟨rfl⟩
    have := h.newer_le (k := 0) (Nat.zero_le _)
    rw [Nat.add_zero] at this
    omega
  le_seen := by
    rintro _ ⟨rfl⟩
    have := le_newer seen gone
    omega
  halves := by
    intro j e he
    rw [List.getElem?_tail] at he
    rw [Part.arrives_of_ne (by omega), Nat.add_assoc, Nat.add_comm 1]
    exact h.halves (j + 1) e he
  unsent n first hn := by
    rw [List.length_tail] at hn
    rw [Part.arrives_of_ne (by omega)]
    exact h.unsent n first (by omega)

theorem Numbered.tail (h : Numbered gone queued buf) (hd : buf[0]? = some d) :
    Numbered (gone + 1) queued buf.tail := by
  have hlt := (List.getElem?_eq_some_iff.mp hd).1
  rw [← List.drop_one]
  exact h.drop hlt

end Lists

/-- The furthest that the queue can look ahead. -/
def bound (L : Nat) : Nat := max L 8

structure Sending (L : Nat) (s : Transfer) : Prop where
  queue : s.queue.Inv
  bytes : s.queue.total ≤ s.queue.unsentBytes
  early : s.queue.earlyDataHead = none
  splitting : s.queue.packetSplitting = true
  lookahead : s.queue.splitLookahead ≤ bound L
  counter : s.sender.nextDgramCounter = s.queued.length % 2 ^ 14
  numbered : Numbered s.gone s.queued s.queue.buf
  dropRun : s.dropRun < 4096
  ready : ∀ p, s.fetched = some p → ∃ off d part, Ready s.queue off d part ∧ off ≤ bound L ∧
    p = ⟨true, d.baseDgid ||| part.bits, part.data d⟩
  order : s.completed.Pairwise (· < ·)
  completed : ∀ n ∈ s.completed, n < s.gone

/-- With the pieces on their way, the receiver has delivered what was fully sent. -/
def Arriving (o : DatagramOptions) (L : Nat) (s : Transfer) : Prop :=
  ∃ outs ahead seen arrived, s.receiver.recvAll o s.channel = .ok (outs, ahead) ∧ Wf o ahead ∧
    Tracks o ahead seen arrived ∧ Linked (bound L) s.gone s.dropRun s.queue.buf seen arrived ∧
    s.delivered ++ outs = s.completed.map (s.queued.getD · [])

structure Inv (o : DatagramOptions) (L : Nat) (s : Transfer) : Prop where
  sending : Sending L s
  arriving : Arriving o L s

theorem inv_initial (h : (machine o L).initial s) : Inv o L s := by
  obtain ⟨limit, rfl⟩ := h
  refine ⟨⟨⟨Nat.zero_le _, by simp [queue], trivial, by simp [queue]⟩, Nat.zero_le _, rfl, rfl, ?_,
    rfl, ⟨rfl, by simp [queue], by simp [queue]⟩, Nat.zero_lt_succ _, by simp, .nil, by simp⟩,
    ⟨[], {}, none, fun _ _ => none, rfl, wf_empty, tracks_empty, ?_, rfl⟩⟩
  · exact Nat.le_max_right L 8
  · exact ⟨by simp, by simp, by simp [queue], fun _ _ _ => rfl⟩

theorem Sending.head (h : Sending L s) : s.queue.head = 0 := by
  simp [DatagramQueue.head, h.early]

theorem Inv.send (h : Inv o L s) (data : List UInt8) :
    ∃ t, step o s (.send data) = .ok t ∧ Inv o L t := by
  refine ⟨_, rfl, ?_⟩
  have hs := h.sending
  unfold Datagrams.sendImpl
  split_ifs
  · exact ⟨⟨hs.queue, hs.bytes, hs.early, hs.splitting, hs.lookahead, hs.counter, hs.numbered,
      hs.dropRun, hs.ready, hs.order, hs.completed⟩, h.arriving⟩
  · have hbase : s.sender.nextDgramCounter <<< 2 = dgid s.queued.length 0 := by
      rw [hs.counter, dgid, Nat.or_zero]
    rw [hbase]
    obtain ⟨hq, htotal⟩ := hs.queue.emplace data (dgid s.queued.length 0)
    have hlength := hs.numbered.length
    refine ⟨⟨hq, ?_, hs.early, hs.splitting, hs.lookahead, ?_, hs.numbered.append data, hs.dropRun,
      ?_, hs.order, hs.completed⟩, ?_⟩
    · have hbytes := hs.bytes
      change (s.queue.emplace data (dgid s.queued.length 0)).total ≤ s.queue.unsentBytes + data.length
      omega
    · change (s.sender.nextDgramCounter + 1) % 2 ^ 14 = (s.queued ++ [data]).length % 2 ^ 14
      rw [hs.counter, List.length_append, List.length_singleton, Nat.mod_add_mod]
    · intro p hp
      obtain ⟨off, d, part, hready, hoff, rfl⟩ := hs.ready p hp
      exact ⟨off, d, part, hready.emplace data _, hoff, rfl⟩
    · obtain ⟨outs, ahead, seen, arrived, hrecv, hwf, htracks, hlinked, hdelivered⟩ := h.arriving
      refine ⟨outs, ahead, seen, arrived, hrecv, hwf, htracks, hlinked.append rfl, ?_⟩
      rw [hdelivered]
      refine List.map_congr_left fun n hn => ?_
      have := hs.completed n hn
      simp only [List.getD_eq_getElem?_getD, List.getElem?_append_left (by omega : n < s.queued.length)]

theorem Inv.lookahead (h : Inv o L s) {n : Int}
    (hn : (s.sender.setSplitDatagramLookahead n).sendBuffer.splitLookahead ≤ L) :
    ∃ t, step o s (.lookahead n) = .ok t ∧ Inv o L t := by
  have hs := h.sending
  refine ⟨_, rfl, ⟨⟨hs.queue.head_le, hs.queue.done, hs.queue.waiting, hs.queue.fits⟩, hs.bytes,
    hs.early, hs.splitting, hn.trans (Nat.le_max_left L 8), hs.counter, hs.numbered, hs.dropRun, ?_,
    hs.order, hs.completed⟩, h.arriving⟩
  intro p hp
  obtain ⟨off, d, part, hr, hoff, rfl⟩ := hs.ready p hp
  exact ⟨off, d, part, ⟨hr.get, hr.left, hr.head, hr.splitting, hr.lastI, hr.lastSent, hr.lastSize⟩,
    hoff, rfl⟩

theorem Inv.deliver (h : Inv o L s) (hne : s.channel ≠ []) :
    ∃ t, step o s .deliver = .ok t ∧ Inv o L t := by
  have hs := h.sending
  obtain ⟨outs, ahead, seen, arrived, hrecv, hwf, htracks, hlinked, hdelivered⟩ := h.arriving
  obtain ⟨data, rest, hchannel⟩ := List.exists_cons_of_ne_nil hne
  rw [hchannel] at hrecv
  simp only [recvAll] at hrecv
  obtain ⟨⟨out, x⟩, hdata, hrecv⟩ := bind_ok hrecv
  obtain ⟨⟨outs', ahead'⟩, hrest, heq⟩ := bind_ok hrecv
  obtain ⟨rfl, rfl⟩ := Prod.mk.inj (Except.ok.inj heq)
  refine ⟨{ s with channel := rest, receiver := x, delivered := s.delivered ++ out.toList }, ?_,
    ⟨hs.queue, hs.bytes, hs.early, hs.splitting, hs.lookahead, hs.counter, hs.numbered, hs.dropRun,
      hs.ready, hs.order, hs.completed⟩, ?_⟩
  · simp only [step, hchannel, hdata, ok_bind]
  · refine ⟨outs', ahead', seen, arrived, hrest, hwf, htracks, hlinked, ?_⟩
    rw [← hdelivered]
    exact List.append_assoc _ _ _

theorem step_fetch {maxPiece : Nat} {preferSmall : Bool} {out : Option (Prepared UInt8)}
    {q : DatagramQueue UInt8} (h : s.queue.fetch maxPiece preferSmall = .ok (out, q)) :
    step o s (.fetch maxPiece preferSmall) = .ok { s with
      sender := { s.sender with sendBuffer := q }
      fetched := out
      gone := s.gone + (s.queue.dropped maxPiece).length
      dropRun := s.dropRun + (s.queue.dropped maxPiece).length } := by
  rw [step, Datagrams.pending_of_fetch h]
  rfl

theorem Inv.fetch (h : Inv o L s) {maxPiece : Nat} (preferSmall : Bool)
    (hrun : s.dropRun + (s.queue.dropped maxPiece).length < 4096) :
    ∃ t, step o s (.fetch maxPiece preferSmall) = .ok t ∧ Inv o L t := by
  have hs := h.sending
  have hq := hs.queue.trimmed maxPiece
  have hbytes := hs.queue.trimmed_bytes hs.bytes maxPiece
  have hlength : (s.queue.dropped maxPiece).length ≤ s.queue.buf.length :=
    (List.takeWhile_sublist _).length_le
  have hnumbered := hs.numbered.drop hlength
  have hcompleted : ∀ n ∈ s.completed, n < s.gone + (s.queue.dropped maxPiece).length :=
    fun n hn => (hs.completed n hn).trans_le (Nat.le_add_right _ _)
  obtain ⟨outs, ahead, seen, arrived, hrecv, hwf, htracks, hlinked, hdelivered⟩ := h.arriving
  have hlinked' := hlinked.drop hlength
  rw [← trimmed_buf] at hnumbered hlinked'
  have hfetch := fetch_eq hs.queue hs.bytes maxPiece preferSmall
  rcases choose_spec hq maxPiece preferSmall with ⟨-, hchoose⟩ |
    ⟨off, d, d', part, hchosen, hchoose⟩
  · exact ⟨_, step_fetch (hfetch.trans hchoose), ⟨hq, hbytes, hs.early, hs.splitting, hs.lookahead,
      hs.counter, hnumbered, hrun, by simp, hs.order, hcompleted⟩,
      ⟨outs, ahead, seen, arrived, hrecv, hwf, htracks, hlinked', hdelivered⟩⟩
  · have hhead : (s.queue.trimmed maxPiece).head = 0 := hs.head
    have hget := hchosen.get
    rw [hhead, Nat.zero_add] at hget
    have hbuf : (prepare ((s.queue.trimmed maxPiece).head + off) d' part.status part.bits
        (part.data d') (s.queue.trimmed maxPiece)).2.buf = (s.queue.trimmed maxPiece).buf.set off d' := by
      rw [hhead, Nat.zero_add]
      rfl
    refine ⟨_, step_fetch (hfetch.trans hchoose), ⟨hchosen.inv hq, hchosen.total.trans_le hbytes,
      hs.early, hs.splitting, hs.lookahead, hs.counter, ?_, hrun, ?_, hs.order, hcompleted⟩,
      ⟨outs, ahead, seen, arrived, hrecv, hwf, htracks, ?_, hdelivered⟩⟩
    · exact hbuf ▸ hnumbered.set hget hchosen.resplit.baseDgid hchosen.resplit.payload
    · rintro p ⟨rfl⟩
      refine ⟨off, d', part, hchosen.ready, hchosen.ahead.trans hs.lookahead, ?_⟩
      have hsplit : (s.queue.trimmed maxPiece).packetSplitting = true := hs.splitting
      rw [hsplit]
    · exact hbuf ▸ hlinked'.set hget (resplit_halves hchosen.resplit)

/-- The piece that was fetched reaches the receiver behind everything that is on its way. -/
theorem Inv.pieceArrives {off : Nat} {d : Storage UInt8} {part : Part} (h : Inv o L s)
    (hsize : L + 2 < o.blockSize) (hget : s.queue.buf[off]? = some d) (hleft : part.Left d)
    (hoff : off ≤ bound L) :
    ∃ outs ahead seen arrived,
      s.receiver.recvAll o
          (s.channel ++ [Prepared.wire ⟨true, d.baseDgid ||| part.bits, part.data d⟩]) =
        .ok (outs ++ (part.completes d).toList, ahead) ∧ Wf o ahead ∧
      Tracks o ahead (some (newer seen (s.gone + off))) (part.arrives arrived (s.gone + off) d) ∧
      Linked (bound L) s.gone s.dropRun s.queue.buf seen arrived ∧
      s.delivered ++ outs = s.completed.map (s.queued.getD · []) := by
  have hs := h.sending
  obtain ⟨outs, ahead, seen, arrived, hrecv, hwf, htracks, hlinked, hdelivered⟩ := h.arriving
  have hbound : bound L + 2 < o.blockSize := by
    have := o.blockSize_bounds.1
    unfold bound
    omega
  obtain ⟨hwindow, hclose⟩ := hlinked.inWindow hbound hs.dropRun hoff
  obtain ⟨z, hz, hwfz, htracksz⟩ := recvWire_part hwf htracks hwindow hclose
    (hs.numbered.base off d hget) hleft (hlinked.halves off d hget)
  exact ⟨outs, z, seen, arrived, recvAll_append hrecv hz, hwfz, htracksz, hlinked, hdelivered⟩

/-- The state after a piece has been confirmed. -/
theorem Inv.step_confirm {off : Nat} {d : Storage UInt8} {part : Part} (h : Inv o L s)
    (hready : Ready s.queue off d part)
    (hp : s.fetched = some ⟨true, d.baseDgid ||| part.bits, part.data d⟩) :
    step o s .confirm = .ok (s.confirmSent ⟨true, d.baseDgid ||| part.bits, part.data d⟩
      { s.sender with sendBuffer := s.queue.confirmed off d part }) := by
  have hs := h.sending
  have hconfirm : s.sender.sendBuffer.confirmSent = .ok (s.queue.confirmed off d part) :=
    confirmSent_eq hready hs.queue (hready.lastSize_le.trans hs.bytes)
  simp only [step, hp, Datagrams.confirmDatagramSent, hconfirm, ok_bind]

theorem Inv.confirm (h : Inv o L s) (hsize : L + 2 < o.blockSize) (hfetched : s.fetched ≠ none) :
    ∃ t, step o s .confirm = .ok t ∧ Inv o L t := by
  have hs := h.sending
  obtain ⟨p, hp⟩ := Option.ne_none_iff_exists'.mp hfetched
  obtain ⟨off, d, part, hready, hoff, rfl⟩ := hs.ready p hp
  have hget : s.queue.buf[off]? = some d := by
    have := hready.get
    rwa [hs.head, Nat.zero_add] at this
  have hlt := (List.getElem?_eq_some_iff.mp hget).1
  obtain ⟨outs, ahead, seen, arrived, hrecv, hwf, htracks, hlinked, hdelivered⟩ :=
    h.pieceArrives hsize hget hready.left hoff
  refine ⟨_, h.step_confirm hready hp, ?_⟩
  -- the queue after it
  obtain ⟨hq, htotal⟩ := hready.confirmed hs.queue
  have hbytes : (s.queue.confirmed off d part).total ≤ (s.queue.confirmed off d part).unsentBytes := by
    have := hs.bytes
    have := s.queue.unsentBytes_confirmed off d part
    omega
  have heq := confirmed_eq hready hs.queue hs.early
  have hearly : (s.queue.confirmed off d part).earlyDataHead = none := by rw [heq]; exact hs.early
  have hsplitting : (s.queue.confirmed off d part).packetSplitting = true := by
    rw [heq]
    exact hs.splitting
  have hlookahead : (s.queue.confirmed off d part).splitLookahead ≤ bound L := by
    rw [heq]
    exact hs.lookahead
  unfold confirmSent
  by_cases hsent : (part.mark d).status = .sent
  · obtain rfl := hready.off_eq_zero hs.queue hsent
    have hbuf : (s.queue.confirmed 0 d part).buf = s.queue.buf.tail := by rw [heq, if_pos hsent]
    have hcompletes : (part.completes d).toList = [d.payload] := by simp [Part.completes, hsent]
    rw [if_pos (by simp only [hbuf, List.length_tail]; omega)]
    rw [hcompletes] at hrecv
    refine ⟨⟨hq, hbytes, hearly, hsplitting, hlookahead, hs.counter, ?_, Nat.zero_lt_succ _, by simp,
      ?_, ?_⟩,
      ⟨_, ahead, _, _, hrecv, hwf, htracks, ?_, ?_⟩⟩
    · exact hbuf ▸ hs.numbered.tail hget
    · exact List.pairwise_append.mpr ⟨hs.order, List.pairwise_singleton _ _, fun n hn m hm =>
        List.mem_singleton.mp hm ▸ hs.completed n hn⟩
    · intro n hn
      rcases List.mem_append.mp hn with hn | hn
      · exact (hs.completed n hn).trans (Nat.lt_succ_self _)
      · exact List.mem_singleton.mp hn ▸ Nat.lt_succ_self _
    · exact hbuf ▸ hlinked.lastPart part d
    · have hentry : s.queued[s.gone]? = some d.payload := hs.numbered.payload 0 d hget
      have hpayload : s.queued.getD s.gone [] = d.payload := by
        rw [List.getD_eq_getElem?_getD, hentry, Option.getD_some]
      change s.delivered ++ (outs ++ [d.payload]) = (s.completed ++ [s.gone]).map _
      rw [← List.append_assoc, hdelivered, List.map_append, List.map_singleton, hpayload]
  · have hbuf : (s.queue.confirmed off d part).buf = s.queue.buf.set off (part.mark d) := by
      rw [heq, if_neg hsent]
    have hcompletes : (part.completes d).toList = [] := by simp [Part.completes, hsent]
    rw [if_neg (by simp only [hbuf, List.length_set]; omega)]
    rw [hcompletes, List.append_nil] at hrecv
    refine ⟨⟨hq, hbytes, hearly, hsplitting, hlookahead, hs.counter, ?_, hs.dropRun, by simp,
      hs.order, hs.completed⟩, ⟨outs, ahead, _, _, hrecv, hwf, htracks, ?_, hdelivered⟩⟩
    · exact hbuf ▸ hs.numbered.set hget rfl rfl
    · exact hbuf ▸ hlinked.part hget hready.left hoff hsent

theorem inductive_inv (hsize : L + 2 < o.blockSize) : (machine o L).Inductive (Inv o L) where
  initial _ := inv_initial
  step s op h he := by
    cases op with
    | send data => exact h.send data
    | fetch maxPiece preferSmall => exact h.fetch preferSmall he.2.2
    | confirm => exact h.confirm hsize he
    | lookahead n => exact h.lookahead he
    | deliver => exact h.deliver he

/-- What the receiver delivers are the datagrams that were fully sent, in the order in which they
were queued, and all of them once the channel is empty; and no assertion fails. -/
theorem transfer_exact (hsize : L + 2 < o.blockSize) (h : (machine o L).Reachable s) :
    (s.delivered <+: s.completed.map (s.queued.getD · [])) ∧
    (s.channel = [] → s.delivered = s.completed.map (s.queued.getD · [])) ∧
    s.completed.Pairwise (· < ·) ∧ (∀ n ∈ s.completed, n < s.queued.length) ∧
    (∀ k d, s.queue.buf[k]? = some d → s.queued[s.gone + k]? = some d.payload) ∧
    ∀ op, Enabled L s op → ∃ t, step o s op = .ok t := by
  have hinv := (inductive_inv hsize).reachable h
  have hs := hinv.sending
  obtain ⟨outs, ahead, seen, arrived, hrecv, -, -, -, hdelivered⟩ := hinv.arriving
  refine ⟨⟨outs, hdelivered⟩, fun hempty => ?_, hs.order, fun n hn => ?_, hs.numbered.payload,
    fun op he => (inductive_inv hsize).progress h he⟩
  · rw [hempty] at hrecv
    obtain ⟨rfl, -⟩ := Prod.mk.inj (Except.ok.inj hrecv)
    rw [← hdelivered, List.append_nil]
  · have := hs.completed n hn
    have := hs.numbered.length
    omega

instance (s : Transfer) (op : TransferOp) : Decidable ((machine o L).enabled s op) :=
  match op with
  | .send _ => inferInstanceAs (Decidable True)
  | .fetch maxPiece _ => inferInstanceAs (Decidable (1 ≤ maxPiece ∧ maxPiece ≤ 65535 ∧
      s.dropRun + (s.queue.dropped maxPiece).length < 4096))
  | .confirm => inferInstanceAs (Decidable (s.fetched ≠ none))
  | .lookahead n => inferInstanceAs
      (Decidable ((s.sender.setSplitDatagramLookahead n).sendBuffer.splitLookahead ≤ L))
  | .deliver => inferInstanceAs (Decidable (s.channel ≠ []))

theorem transfer_exact_second_half_first :
    ∃ s : Transfer, (machine smallest 8).Reachable s ∧ s.channel = [] ∧ s.completed = [0] ∧
      s.delivered = [[1, 2, 3]] := by
  have hrun : ((machine smallest 8).run {} [.send [1, 2, 3], .send [4, 5, 6], .fetch 2 true, .confirm,
      .fetch 2 true, .confirm, .fetch 2 false, .confirm, .deliver, .deliver, .deliver]).map
        (fun s => (s.channel, s.completed, s.queued)) =
      some ([], [0], [[1, 2, 3], [4, 5, 6]]) := by decide +kernel
  obtain ⟨s, hs, hview⟩ := Option.map_eq_some_iff.mp hrun
  simp only [Prod.mk.injEq] at hview
  obtain ⟨hchannel, hcompleted, hqueued⟩ := hview
  have hreach := (Machine.Reachable.initial (M := machine smallest 8) ⟨2000000, rfl⟩).run hs
  have hdelivered := (transfer_exact (by decide) hreach).2.1 hchannel
  refine ⟨s, hreach, hchannel, hcompleted, ?_⟩
  rw [hdelivered, hcompleted, hqueued]
  rfl

end Transfer

end Libquic
