import Libquic.Stream.SendSpec

/-!
# Byte accounting of a stream's send side

The ledger is what a stream's send side is for, told without indices or offsets: which
buffers were queued and not withdrawn, which bytes have been written, and how many are
acked. `Split` ties the send buffer to it. Every operation keeps it, so it holds in
every state that sends, writes, acks and withdrawals can reach.
-/
namespace Libquic

open Lib

structure Ledger where
  /-- Buffers queued and not withdrawn, in the order they were sent. -/
  live : List Buffer := []
  withdrawn : List Buffer := []
  /-- The bytes that successive writes took. -/
  consumed : Bytes := []
  acked : Nat := 0
  deriving DecidableEq, Repr

namespace Ledger

/-- How many of the buffers the first `bytes` bytes touch. -/
def touched : Nat → List Buffer → Nat
  | _, [] => 0
  | bytes, b :: rest => if bytes = 0 then 0 else touched (bytes - b.size) rest + 1

def queue (ledger : Ledger) (added : List Buffer) : Ledger :=
  { ledger with live := ledger.live ++ added }

def consume (ledger : Ledger) (bytes : Bytes) : Ledger :=
  { ledger with consumed := ledger.consumed ++ bytes }

def ack (ledger : Ledger) (bytes : Nat) : Ledger := { ledger with acked := ledger.acked + bytes }

/-- Take back the first buffer of that owner among those no written byte touches. -/
def withdraw (ledger : Ledger) (keepAlive : KeepAlive) : Ledger :=
  let whole := touched ledger.consumed.length ledger.live
  { ledger with
    live := ledger.live.take whole ++ (ledger.live.drop whole).eraseP (·.keepAlive = keepAlive)
    withdrawn := ledger.withdrawn ++
      ((ledger.live.drop whole).find? (·.keepAlive = keepAlive)).toList }

theorem touched_zero (bufs : List Buffer) : touched 0 bufs = 0 := by cases bufs <;> simp [touched]

/-- The touched buffers contain all of the bytes. -/
theorem le_length_take_touched {bufs : List Buffer} {n : Nat} (h : n ≤ (bytesOf bufs).length) :
    n ≤ (bytesOf (bufs.take (touched n bufs))).length := by
  induction bufs generalizing n with
  | nil => simpa using h
  | cons b bufs ih =>
    by_cases h0 : n = 0
    · omega
    · rw [bytesOf_cons, List.length_append] at h
      have hrest := ih (n := n - b.size) (by rw [Buffer.size]; omega)
      rw [touched, if_neg h0, List.take_succ_cons, bytesOf_cons, List.length_append]
      rw [Buffer.size] at hrest
      rw [Buffer.size]
      omega

theorem touched_append {xs ys : List Buffer} {n : Nat} (hx : Filled xs) :
    touched ((bytesOf xs).length + n) (xs ++ ys) = xs.length + touched n ys := by
  induction xs with
  | nil => simp
  | cons b xs ih =>
    have hb : 0 < b.data.length := List.length_pos_iff.mpr (hx b (by simp))
    have hrest : Filled xs := fun x h => hx x (by simp [h])
    have hsub : (bytesOf (b :: xs)).length + n - b.size = (bytesOf xs).length + n := by
      rw [bytesOf_cons, List.length_append, Buffer.size]
      omega
    have hne : (bytesOf (b :: xs)).length + n ≠ 0 := by
      rw [bytesOf_cons, List.length_append]
      omega
    rw [List.cons_append, touched, if_neg hne, hsub, ih hrest, List.length_cons]
    omega

end Ledger

namespace Stream

open Ledger

/-- Written bytes touch the buffers before the send index, and the one at it if started. -/
theorem touched_trimFront {held : List Buffer} {trimmed index offset : Nat}
    (hf : Filled held) (hin : EnteredAt trimmed held)
    (hv : Segments.Valid ((trimFront trimmed held).map Buffer.data) index offset) :
    touched (trimmed + Segments.position ((trimFront trimmed held).map Buffer.data) index offset)
      held = index + if 0 < offset ∨ (index = 0 ∧ 0 < trimmed) then 1 else 0 := by
  induction held generalizing trimmed index with
  | nil =>
    obtain ⟨seg, hs, _⟩ | ⟨rfl, rfl⟩ := hv
    · simp [trimFront] at hs
    · simp [trimFront, touched, show trimmed = 0 from hin]
  | cons b held ih =>
    have hlt : trimmed < b.data.length := hin
    cases index with
    | zero =>
      obtain ⟨seg, hs, ho⟩ | ⟨hi, _⟩ := hv
      · obtain rfl : b.data.drop trimmed = seg := by simpa [trimFront] using hs
        rw [List.length_drop] at ho
        have hsub : trimmed + offset - b.size = 0 := by rw [Buffer.size]; omega
        rw [Segments.position_zero, touched, hsub, touched_zero]
        grind
      · simp [trimFront] at hi
    | succ index =>
      have hrest : Filled held := fun x h => hf x (by simp [h])
      have hv' : Segments.Valid ((trimFront 0 held).map Buffer.data) index offset := by
        rw [trimFront_zero]
        simpa [Segments.Valid, trimFront] using hv
      have hpos : trimmed + Segments.position ((trimFront trimmed (b :: held)).map Buffer.data)
          (index + 1) offset =
          b.size + Segments.position (held.map Buffer.data) index offset := by
        simp only [trimFront, List.map_cons, Segments.position_cons_succ, List.length_drop]
        rw [Buffer.size]
        omega
      have hih := ih hrest (entered_zero hrest) hv'
      rw [trimFront_zero, Nat.zero_add] at hih
      rw [hpos, touched, Nat.add_sub_cancel_left, hih, if_neg (by rw [Buffer.size]; omega)]
      grind

/-- The send buffer against the ledger: the live buffers are those released after acks,
then those held, of which the front may be trimmed. -/
structure Split (ledger : Ledger) (s : Stream) (released held : List Buffer) : Prop where
  live : ledger.live = released ++ held
  filled : Filled ledger.live
  buffers : s.userBuffers = trimFront s.frontTrimmed held
  front : EnteredAt s.frontTrimmed held
  point : s.AtSendPoint
  acked : (bytesOf released).length + s.frontTrimmed = ledger.acked
  ackedBytes : s.ackedBytes = ledger.acked
  unacked : s.unackedSize = s.sendPoint
  unsent : s.unsentSize = s.unsentBytes.length
  consumed : ledger.consumed = (bytesOf ledger.live).take (ledger.acked + s.sendPoint)
  order : ledger.live.Sublist s.accepted
  whole : (ledger.live ++ ledger.withdrawn).Perm s.accepted

section Split

variable {ledger : Ledger} {s : Stream} {released held : List Buffer}

theorem Split.filledHeld (h : Split ledger s released held) : Filled held :=
  fun b hb => h.filled b (by rw [h.live]; exact List.mem_append_right _ hb)

theorem Split.filledBuffers (h : Split ledger s released held) : Filled s.userBuffers := by
  rw [h.buffers]
  exact filled_trimFront h.front h.filledHeld

/-- The deque holds the live bytes that are not acked. -/
theorem Split.bytes (h : Split ledger s released held) :
    bytesOf s.userBuffers = (bytesOf ledger.live).drop ledger.acked := by
  rw [h.buffers, bytesOf_trimFront h.front, h.live, bytesOf_append, ← h.acked,
    List.drop_append]
  simp

theorem Split.unsentBytes (h : Split ledger s released held) :
    s.unsentBytes = (bytesOf ledger.live).drop (ledger.acked + s.sendPoint) := by
  rw [Stream.unsentBytes, h.bytes, List.drop_drop]

theorem Split.length_live (h : Split ledger s released held) :
    (bytesOf ledger.live).length = ledger.acked + (bytesOf s.userBuffers).length := by
  have hle := h.front.le
  rw [h.bytes, List.length_drop, h.live, bytesOf_append, List.length_append, ← h.acked]
  omega

theorem Split.length_consumed (h : Split ledger s released held) :
    ledger.consumed.length = ledger.acked + s.sendPoint := by
  have hle := h.point.le
  rw [h.consumed, List.length_take, h.length_live]
  omega

/-! ## Each operation keeps the split -/

theorem Split.grow (h : Split ledger s released held) {added : List Buffer} (alarm : Bool)
    (hne : Filled added) :
    Split (ledger.queue added) (s.grow added alarm) released (held ++ added) := by
  obtain ⟨hpoint, hpos⟩ := grow_point alarm h.point hne
  refine ⟨?_, h.filled.append hne, ?_, ?_, hpoint, h.acked, h.ackedBytes, ?_, ?_, ?_, ?_, ?_⟩
  · simp [Ledger.queue, h.live]
  · show s.userBuffers ++ added = trimFront s.frontTrimmed (held ++ added)
    rw [trimFront_append h.front, h.buffers]
  · exact h.front.append hne
  · rw [hpos]
    exact h.unacked
  · rw [grow_unsentBytes alarm h.point hne, List.length_append, ← h.unsent]
    rfl
  · have hle : ledger.acked + s.sendPoint ≤ (bytesOf ledger.live).length := by
      rw [h.length_live]
      exact Nat.add_le_add_left h.point.le _
    simp only [Ledger.queue, bytesOf_append, hpos]
    rw [List.take_append_of_le_length hle]
    exact h.consumed
  · exact h.order.append (List.Sublist.refl added)
  · have hswap : (added ++ ledger.withdrawn).Perm (ledger.withdrawn ++ added) :=
      List.perm_append_comm
    have hperm := (hswap.append_left ledger.live).trans
      ((List.append_assoc .. ▸ h.whole.append_right added :))
    simpa [Ledger.queue, Stream.grow] using hperm

theorem Split.move (h : Split ledger s released held) {bytes index offset : Nat}
    (hpoint : (s.move bytes index offset).AtSendPoint)
    (hpos : (s.move bytes index offset).sendPoint = s.sendPoint + bytes) :
    Split (ledger.consume (s.unsentBytes.take bytes)) (s.move bytes index offset)
      released held := by
  have hunsent : (s.move bytes index offset).unsentBytes = s.unsentBytes.drop bytes := by
    rw [Stream.unsentBytes, hpos, Stream.unsentBytes, List.drop_drop]
    rfl
  refine ⟨h.live, h.filled, h.buffers, h.front, hpoint, h.acked, h.ackedBytes, ?_, ?_, ?_,
    h.order, h.whole⟩
  · rw [hpos, ← h.unacked]
    rfl
  · rw [hunsent, List.length_drop, ← h.unsent]
    rfl
  · rw [hpos, ← Nat.add_assoc, Ledger.consume, List.take_add, ← h.unsentBytes, ← h.consumed]

/-- The split says nothing about the stream's flags and its watermarks. -/
theorem Split.congr {t : Stream} (h : Split ledger s released held)
    (ht : t = { s with
      sendFin := t.sendFin, sentFin := t.sentFin, ready := t.ready, notify := t.notify,
      streamId := t.streamId, isClosing := t.isClosing, watermarking := t.watermarking,
      watermarkAlarm := t.watermarkAlarm }) : Split ledger t released held := by
  rw [ht]
  exact ⟨h.live, h.filled, h.buffers, h.front, h.point, h.acked, h.ackedBytes, h.unacked,
    h.unsent, h.consumed, h.order, h.whole⟩

/-- After a reversal the stream is back at the first byte that is not acked. -/
theorem Split.revert (h : Split ledger s released held) :
    Split { ledger with consumed := (bytesOf ledger.live).take ledger.acked } s.revertStream
      released held := by
  have hpos : s.revertStream.sendPoint = 0 := by simp [sendPoint, revertStream]
  have hpoint : s.revertStream.AtSendPoint := by
    have hin := entered_zero h.filledBuffers
    simp only [AtSendPoint, revertStream]
    cases hb : s.userBuffers with
    | nil => exact .inr ⟨rfl, rfl⟩
    | cons b bufs =>
      rw [hb] at hin
      exact .inl ⟨b.data, rfl, hin⟩
  refine ⟨h.live, h.filled, h.buffers, h.front, hpoint, h.acked, h.ackedBytes, ?_, ?_, ?_,
    h.order, h.whole⟩
  · rw [hpos]
    rfl
  · have hle := h.point.le
    have hsum : s.unsentSize + s.unackedSize = (bytesOf s.userBuffers).length := by
      rw [h.unsent, h.unacked, Stream.unsentBytes, List.length_drop]
      omega
    rw [Stream.unsentBytes, hpos, List.drop_zero]
    exact hsum
  · rw [hpos, Nat.add_zero]

/-- Whole buffers taken off the trimmed front are whole buffers of the held ones. -/
theorem length_take_trimFront {trimmed k : Nat} (hin : EnteredAt trimmed held) (hk : k ≠ 0) :
    (bytesOf ((trimFront trimmed held).take k)).length + trimmed =
      (bytesOf (held.take k)).length := by
  obtain ⟨k, rfl⟩ := Nat.exists_eq_succ_of_ne_zero hk
  cases held with
  | nil => simp [trimFront, show trimmed = 0 from hin]
  | cons b held =>
    have hlt : trimmed < b.data.length := hin
    simp only [trimFront, Nat.succ_eq_add_one, List.take_succ_cons, bytesOf_cons,
      List.length_append, List.length_drop]
    omega

theorem Split.release (h : Split ledger s released held) {bytes k left : Nat}
    (hk : k ≤ s.currentBufferIndex) (hin : EnteredAt left (s.userBuffers.drop k))
    (hoff : s.currentBufferIndex - k = 0 → left ≤ s.currentBufferOffset)
    (hb : bytes = (bytesOf (s.userBuffers.take k)).length + left) :
    Split (ledger.ack bytes) (s.release bytes k left) (released ++ held.take k)
      (held.drop k) := by
  obtain ⟨hpoint, hpos⟩ := release_point h.point hk hin hoff hb
  have hacked : ledger.acked + bytes + (s.release bytes k left).sendPoint =
      ledger.acked + s.sendPoint := by omega
  refine ⟨?_, h.filled, ?_, ?_, hpoint, ?_, ?_, ?_, ?_, ?_, h.order, h.whole⟩
  · rw [List.append_assoc, List.take_append_drop]
    exact h.live
  · show trimFront left (s.userBuffers.drop k) = _
    rw [h.buffers]
    by_cases h0 : k = 0
    · simp only [Stream.release, h0, List.drop_zero, if_true, trimFront_trimFront]
    · simp only [Stream.release, h0, if_false, Nat.zero_add, drop_trimFront h0 held]
  · have hfront := h.front
    rw [h.buffers] at hin
    by_cases h0 : k = 0
    · simp only [Stream.release, h0, List.drop_zero, if_true] at hin ⊢
      cases held with
      | nil => simp_all [EnteredAt, trimFront]
      | cons b held =>
        simp only [EnteredAt, trimFront, Buffer.size, List.length_drop] at hin hfront ⊢
        omega
    · rw [drop_trimFront h0 held] at hin
      simpa only [Stream.release, h0, if_false, Nat.zero_add] using hin
  · rw [h.buffers] at hb
    have hack := h.acked
    by_cases h0 : k = 0
    · subst h0
      simp only [Stream.release, Ledger.ack, List.take_zero, List.append_nil, if_true,
        bytesOf_nil, List.length_nil] at hb ⊢
      omega
    · have htake := length_take_trimFront h.front h0
      simp only [Stream.release, Ledger.ack, h0, if_false, bytesOf_append, List.length_append]
      omega
  · show s.ackedBytes + bytes = ledger.acked + bytes
    rw [h.ackedBytes]
  · show s.unackedSize - bytes = _
    rw [h.unacked]
    omega
  · show s.unsentSize = _
    have hbytes : bytesOf (s.release bytes k left).userBuffers =
        (bytesOf s.userBuffers).drop bytes := by
      show bytesOf (trimFront left (s.userBuffers.drop k)) = _
      have hsplit : bytesOf s.userBuffers =
          bytesOf (s.userBuffers.take k) ++ bytesOf (s.userBuffers.drop k) := by
        rw [← bytesOf_append, List.take_append_drop]
      rw [bytesOf_trimFront hin, hsplit, hb, List.drop_append]
      simp
    rw [h.unsent, Stream.unsentBytes, Stream.unsentBytes, hbytes, List.drop_drop, hpos]
  · show ledger.consumed = (bytesOf ledger.live).take (ledger.acked + bytes + _)
    rw [hacked]
    exact h.consumed

/-- The buffers no written byte touches are the whole unsent ones of the deque. -/
theorem Split.touched (h : Split ledger s released held) :
    Ledger.touched ledger.consumed.length ledger.live = released.length + s.firstWhole := by
  have hreleased : Filled released := fun b hb => h.filled b (by simp [h.live, hb])
  have hpoint := h.point
  rw [AtSendPoint, h.buffers] at hpoint
  have hsum : ledger.acked + s.sendPoint = (bytesOf released).length + (s.frontTrimmed +
      Segments.position ((trimFront s.frontTrimmed held).map Buffer.data)
        s.currentBufferIndex s.currentBufferOffset) := by
    rw [← h.acked, sendPoint, h.buffers, Nat.add_assoc]
  rw [h.length_consumed, h.live, hsum, touched_append hreleased,
    touched_trimFront h.filledHeld h.front hpoint]
  simp [firstWhole, started]

theorem Split.front_firstWhole (h0 : s.firstWhole = 0) : s.frontTrimmed = 0 := by
  simp only [firstWhole, Nat.add_eq_zero_iff, ite_eq_right_iff, Nat.one_ne_zero, imp_false,
    Bool.not_eq_true] at h0
  simpa [started, h0.1] using (Bool.or_eq_false_iff.mp h0.2).2

theorem Split.drop_firstWhole (h : Split ledger s released held) :
    s.userBuffers.drop s.firstWhole = held.drop s.firstWhole := by
  rw [h.buffers]
  by_cases h0 : s.firstWhole = 0
  · rw [Split.front_firstWhole h0, trimFront_zero]
  · rw [drop_trimFront h0]

/-- The live buffers around the one that `withdraw` takes. -/
theorem Split.live_around (h : Split ledger s released held) {skipped after : List Buffer}
    {b : Buffer} (hd : s.userBuffers.drop s.firstWhole = skipped ++ b :: after) :
    ledger.live = (released ++ held.take s.firstWhole ++ skipped) ++ b :: after ∧
      ledger.consumed.length ≤ (bytesOf (released ++ held.take s.firstWhole ++ skipped)).length := by
  have hlive : ledger.live = (released ++ held.take s.firstWhole ++ skipped) ++ b :: after := by
    rw [List.append_assoc, ← hd, h.drop_firstWhole, List.append_assoc, List.take_append_drop, h.live]
  refine ⟨hlive, ?_⟩
  have hle : ledger.consumed.length ≤ (bytesOf ledger.live).length := by
    rw [h.length_consumed, h.length_live]
    exact Nat.add_le_add_left h.point.le _
  have hcover := le_length_take_touched hle
  rw [h.touched, h.live, List.take_append, Nat.add_sub_cancel_left,
    List.take_of_length_le (Nat.le_add_right ..)] at hcover
  rw [bytesOf_append, List.length_append]
  omega

theorem Split.withdraw_eq (h : Split ledger s released held) {skipped after : List Buffer}
    {b : Buffer} (hd : s.userBuffers.drop s.firstWhole = skipped ++ b :: after)
    (hskip : ∀ x ∈ skipped, x.keepAlive ≠ b.keepAlive) :
    ledger.withdraw b.keepAlive =
      { ledger with
        live := released ++ (held.take s.firstWhole ++ (skipped ++ after))
        withdrawn := ledger.withdrawn ++ [b] } := by
  have hdrop : ledger.live.drop (released.length + s.firstWhole) = skipped ++ b :: after := by
    rw [h.live, List.drop_append, List.drop_of_length_le (Nat.le_add_right ..),
      Nat.add_sub_cancel_left, List.nil_append, ← h.drop_firstWhole, hd]
  have htake : ledger.live.take (released.length + s.firstWhole) =
      released ++ held.take s.firstWhole := by
    rw [h.live, List.take_append, Nat.add_sub_cancel_left,
      List.take_of_length_le (Nat.le_add_right ..)]
  have herase : (skipped ++ b :: after).eraseP (·.keepAlive = b.keepAlive) = skipped ++ after := by
    rw [List.eraseP_append_right _ (by simpa using hskip), List.eraseP_cons_of_pos (by simp)]
  have hfind : (skipped ++ b :: after).find? (·.keepAlive = b.keepAlive) = some b := by
    rw [List.find?_append, List.find?_eq_none.mpr (by simpa using hskip)]
    simp
  simp only [Ledger.withdraw, h.touched, hdrop, htake, herase, hfind, List.append_assoc,
    Option.toList_some]

theorem Split.shrink (h : Split ledger s released held) {skipped after : List Buffer}
    {b : Buffer} (hd : s.userBuffers.drop s.firstWhole = skipped ++ b :: after)
    (hskip : ∀ x ∈ skipped, x.keepAlive ≠ b.keepAlive) :
    Split (ledger.withdraw b.keepAlive)
      (s.shrink b.size (s.userBuffers.take s.firstWhole ++ (skipped ++ after)))
      released (held.take s.firstWhole ++ (skipped ++ after)) := by
  obtain ⟨hlive, hconsumed⟩ := h.live_around hd
  obtain ⟨hpoint, hpos⟩ := shrink_point h.point h.filledBuffers hd
  rw [h.withdraw_eq hd hskip]
  have hfront : EnteredAt s.frontTrimmed (held.take s.firstWhole) :=
    h.front.take Split.front_firstWhole
  have hfilled : Filled (skipped ++ after) := by
    intro x hx
    apply h.filled x
    rw [hlive]
    grind
  have hsplit : s.userBuffers = s.userBuffers.take s.firstWhole ++ (skipped ++ b :: after) := by
    rw [← hd, List.take_append_drop]
  have hnew : released ++ (held.take s.firstWhole ++ (skipped ++ after)) =
      (released ++ held.take s.firstWhole ++ skipped) ++ after := by
    simp only [List.append_assoc]
  refine ⟨rfl, ?_, ?_, hfront.append hfilled, hpoint, h.acked, h.ackedBytes, ?_, ?_, ?_, ?_, ?_⟩
  · intro x hx
    apply h.filled x
    rw [hlive]
    grind
  · show s.userBuffers.take s.firstWhole ++ (skipped ++ after) = trimFront s.frontTrimmed _
    rw [trimFront_append hfront, ← take_trimFront, ← h.buffers]
  · rw [hpos]
    exact h.unacked
  · have hlen := congrArg (fun bufs => (bytesOf bufs).length) hsplit
    have hle := h.point.le
    rw [Stream.unsentBytes, List.length_drop, hpos]
    simp only [bytesOf_append, bytesOf_cons, List.length_append] at hlen
    simp only [Stream.shrink, bytesOf_append, List.length_append, h.unsent, Stream.unsentBytes,
      List.length_drop, Buffer.size]
    omega
  · rw [h.length_consumed] at hconsumed
    rw [hnew, bytesOf_append, hpos]
    rw [List.take_append_of_le_length hconsumed]
    rw [h.consumed, hlive, bytesOf_append, List.take_append_of_le_length hconsumed]
  · refine List.Sublist.trans ?_ h.order
    rw [hnew, hlive]
    exact (List.sublist_cons_self b after).append_left _
  · refine List.Perm.trans ?_ h.whole
    rw [hnew, hlive]
    have hlast : (after ++ ledger.withdrawn ++ [b]).Perm (b :: (after ++ ledger.withdrawn)) :=
      List.perm_append_singleton b _
    simpa using hlast.append_left (released ++ held.take s.firstWhole ++ skipped)

end Split

end Stream

/-! ## The send side as a machine -/

/-- What can happen to a stream's send side. The reaction is what a watermark callback
does if the operation triggers one. -/
inductive SendOp where
  | send (buffer : Buffer) (reaction : Reaction)
  /-- `pending(offer)`, and then `wrote(bytes)`. -/
  | write (offer bytes : Nat) (reaction : Reaction)
  | acknowledge (bytes : Nat)
  | withdraw (keepAlive : KeepAlive) (reaction : Reaction)
  deriving DecidableEq, Repr

/-- How many bytes an operation writes. -/
def SendOp.written : SendOp → Nat
  | .write _ bytes _ => bytes
  | _ => 0

structure SendState where
  stream : Stream
  ledger : Ledger
  deriving DecidableEq, Repr

namespace SendState

/-- A stream nothing has been sent on yet, with any flags and watermarks. -/
def Initial (x : SendState) : Prop :=
  x.ledger = {} ∧ x.stream.userBuffers = [] ∧ x.stream.accepted = [] ∧
    x.stream.unsentSize = 0 ∧ x.stream.unackedSize = 0 ∧ x.stream.ackedBytes = 0 ∧
    x.stream.currentBufferIndex = 0 ∧ x.stream.currentBufferOffset = 0 ∧
    x.stream.frontTrimmed = 0

/-- How many bytes `pending` offers. -/
def offered (x : SendState) (offer : Nat) : Nat :=
  match x.stream.pending offer with
  | .ok (vecs, _) => vecs.flatten.length
  | .error _ => 0

/-- The callers' obligations: no empty sends, at most the offered bytes written, and at
most the unacked ones acked. -/
def Enabled (x : SendState) : SendOp → Prop
  | .send buffer _ => buffer.data ≠ []
  | .write offer bytes _ => bytes ≤ x.offered offer
  | .acknowledge bytes => bytes ≤ x.stream.unackedSize
  | .withdraw _ _ => True

instance (x : SendState) : (op : SendOp) → Decidable (x.Enabled op)
  | .send .. => inferInstanceAs (Decidable (_ ≠ _))
  | .write .. => inferInstanceAs (Decidable (_ ≤ _))
  | .acknowledge .. => inferInstanceAs (Decidable (_ ≤ _))
  | .withdraw .. => inferInstanceAs (Decidable True)

/-- Replace the stream, and queue in the ledger what it has accepted since. -/
def commit (x : SendState) (ledger : Ledger) (s : Stream) : SendState :=
  ⟨s, ledger.queue (s.accepted.drop x.stream.accepted.length)⟩

def step (connOpen : Bool) (x : SendState) : SendOp → Except Fault SendState
  | .send buffer reaction =>
    .ok (x.commit x.ledger (x.stream.sendImpl connOpen (Stream.react connOpen reaction) buffer))
  | .write offer bytes reaction => do
    let (vecs, _) ← x.stream.pending offer
    let s ← x.stream.wrote (Stream.react connOpen reaction) bytes
    return x.commit (x.ledger.consume (vecs.flatten.take bytes)) s
  | .acknowledge bytes => do
    let s ← x.stream.acknowledge bytes
    return x.commit (x.ledger.ack bytes) s
  | .withdraw keepAlive reaction => do
    let (found, s) ← x.stream.withdraw (Stream.react connOpen reaction) keepAlive
    return x.commit (if found then x.ledger.withdraw keepAlive else x.ledger) s

/-- The send side under any operations, each with whether the connection is open then. -/
def machine : Machine SendState (Bool × SendOp) Fault where
  initial := Initial
  enabled x op := x.Enabled op.2
  step x op := step op.1 x op.2

instance (x : SendState) (op : Bool × SendOp) : Decidable (machine.enabled x op) :=
  inferInstanceAs (Decidable (x.Enabled op.2))

/-- The send buffer agrees with the ledger. -/
def Agrees (x : SendState) : Prop := ∃ released held, Stream.Split x.ledger x.stream released held

theorem Initial.agrees {x : SendState} (h : x.Initial) : x.Agrees := by
  obtain ⟨hledger, hbufs, haccepted, hunsent, hunacked, hacked, hidx, hoff, htrim⟩ := h
  refine ⟨[], [], ?_⟩
  constructor <;>
    simp [hledger, hbufs, haccepted, hunsent, hunacked, hacked, hidx, hoff, htrim, Filled,
      Stream.trimFront, Stream.EnteredAt, Stream.AtSendPoint, Segments.Valid, Stream.sendPoint,
      Stream.unsentBytes]

variable {connOpen : Bool} {x : SendState}

/-- Whatever a watermark callback queues ends an operation that agrees with the ledger in
another such state. -/
theorem commit_grow {ledger : Ledger} {s : Stream} {added : List Buffer}
    (h : Agrees ⟨s, ledger⟩) (hs : s.accepted = x.stream.accepted) (alarm : Bool)
    (hne : Filled added) : (x.commit ledger (s.grow added alarm)).Agrees := by
  obtain ⟨released, held, hsplit⟩ := h
  refine ⟨released, held ++ added, ?_⟩
  have hadded : (s.grow added alarm).accepted.drop x.stream.accepted.length = added := by
    simp [Stream.grow, hs]
  rw [commit, hadded]
  exact hsplit.grow alarm hne

theorem send_agrees (h : x.Agrees) (buffer : Buffer) (reaction : Reaction) :
    (x.commit x.ledger
      (x.stream.sendImpl connOpen (Stream.react connOpen reaction) buffer)).Agrees := by
  obtain ⟨added, alarm, hne, he⟩ :=
    Stream.sendImpl_grow (Stream.react_onlySends connOpen reaction) connOpen x.stream buffer
  rw [he]
  exact commit_grow h rfl alarm hne

theorem write_agrees (h : x.Agrees) {offer bytes : Nat} {reaction : Reaction}
    (hen : x.Enabled (.write offer bytes reaction)) :
    ∃ y, step connOpen x (.write offer bytes reaction) = .ok y ∧ y.Agrees := by
  obtain ⟨released, held, hsplit⟩ := h
  obtain ⟨vecs, more, hpend, hpre, -, -⟩ :=
    Stream.pending_spec offer hsplit.point hsplit.filledBuffers hsplit.unsent
  have hbytes : bytes ≤ vecs.flatten.length := by
    simpa only [Enabled, offered, hpend] using hen
  have hle : bytes ≤ x.stream.unsentBytes.length := hbytes.trans hpre.length_le
  have htake : vecs.flatten.take bytes = x.stream.unsentBytes.take bytes := by
    obtain ⟨rest, hrest⟩ := hpre
    rw [← hrest, List.take_append_of_le_length hbytes]
  obtain ⟨added, alarm, index, offset, hne, hok, hpoint, hpos⟩ :=
    Stream.wrote_spec (Stream.react_onlySends connOpen reaction) hsplit.point
      hsplit.filledBuffers hsplit.unsent hle
  have hgrown := hsplit.grow alarm hne
  have hsame : ((x.stream.grow added alarm).unsentBytes).take bytes = vecs.flatten.take bytes := by
    rw [Stream.grow_unsentBytes alarm hsplit.point hne, List.take_append_of_le_length hle, htake]
  have hadded : ((x.stream.grow added alarm).move bytes index offset).accepted.drop
      x.stream.accepted.length = added := by
    simp [Stream.move, Stream.grow]
  have hmoved := hgrown.move hpoint (hpos.trans
    (congrArg (· + bytes) (Stream.grow_point alarm hsplit.point hne).2.symm))
  rw [hsame] at hmoved
  refine ⟨_, by simp only [step, hpend, hok, ok_bind, pure_eq_ok]; rfl, released, held ++ added, ?_⟩
  rw [commit, hadded]
  exact hmoved

theorem acknowledge_agrees (connOpen : Bool) (h : x.Agrees) {bytes : Nat}
    (hen : x.Enabled (.acknowledge bytes)) :
    ∃ y, step connOpen x (.acknowledge bytes) = .ok y ∧ y.Agrees := by
  obtain ⟨released, held, hsplit⟩ := h
  obtain ⟨k, left, hok, hk, hsum, hin, hoff⟩ :=
    Stream.acknowledge_spec hsplit.point hsplit.filledBuffers hsplit.unacked hen
  have hnone : (x.stream.release bytes k left).accepted.drop x.stream.accepted.length = [] := by
    simp [Stream.release]
  refine ⟨_, by simp only [step, hok, ok_bind, pure_eq_ok]; rfl, released ++ held.take k,
    held.drop k, ?_⟩
  rw [commit, hnone]
  simpa [Ledger.queue] using hsplit.release hk hin hoff hsum

theorem withdraw_agrees (h : x.Agrees) (keepAlive : KeepAlive) (reaction : Reaction) :
    ∃ y, step connOpen x (.withdraw keepAlive reaction) = .ok y ∧ y.Agrees := by
  obtain ⟨released, held, hsplit⟩ := h
  rcases Stream.withdraw_spec (Stream.react connOpen reaction) keepAlive hsplit.point
    hsplit.unsent with ⟨-, hok⟩ | ⟨skipped, b, after, hd, hskip, hb, -, hok⟩
  · refine ⟨_, by simp only [step, hok, ok_bind, pure_eq_ok]; rfl, released, held, ?_⟩
    simpa [commit, Ledger.queue] using hsplit
  · subst hb
    obtain ⟨added, alarm, hne, hgrow⟩ := Stream.checkWatermark_grow
      (Stream.react_onlySends connOpen reaction)
      (x.stream.shrink b.size (x.stream.userBuffers.take x.stream.firstWhole ++ (skipped ++ after)))
    refine ⟨_, by simp only [step, hok, ok_bind, pure_eq_ok]; rfl, ?_⟩
    rw [hgrow]
    exact commit_grow ⟨_, _, hsplit.shrink hd hskip⟩ rfl alarm hne

theorem agrees_inductive : machine.Inductive Agrees where
  initial _ h := Initial.agrees h
  step x := by
    rintro ⟨connOpen, op⟩ h hen
    cases op with
    | send buffer reaction => exact ⟨_, rfl, send_agrees h buffer reaction⟩
    | write offer bytes reaction => exact write_agrees h hen
    | acknowledge bytes => exact acknowledge_agrees connOpen h hen
    | withdraw keepAlive reaction => exact withdraw_agrees h keepAlive reaction

theorem step_sameFlags {op : SendOp} {y : SendState} (h : step connOpen x op = .ok y) :
    y.stream.SameFlags x.stream := by
  cases op with
  | send buffer reaction =>
    obtain rfl := Except.ok.inj h
    exact Stream.sendImpl_sameFlags (Stream.react_onlySends connOpen reaction) ..
  | write offer bytes reaction =>
    obtain ⟨⟨vecs, more⟩, -, h⟩ := bind_ok h
    obtain ⟨s, hw, h⟩ := bind_ok h
    obtain rfl := Except.ok.inj h
    exact Stream.wrote_sameFlags (Stream.react_onlySends connOpen reaction) hw
  | acknowledge bytes =>
    obtain ⟨s, ha, h⟩ := bind_ok h
    obtain rfl := Except.ok.inj h
    exact (Stream.acknowledge_keeps ha).1
  | withdraw keepAlive reaction =>
    obtain ⟨⟨found, s⟩, hw, h⟩ := bind_ok h
    obtain rfl := Except.ok.inj h
    exact Stream.withdraw_sameFlags (Stream.react_onlySends connOpen reaction) hw

/-- After `send_fin` every operation only takes unsent bytes away. -/
theorem step_unsentSize {op : SendOp} {y : SendState} (hfin : x.stream.sendFin = true)
    (h : step connOpen x op = .ok y) :
    y.stream.unsentSize + op.written ≤ x.stream.unsentSize := by
  cases op with
  | send buffer reaction =>
    obtain rfl := Except.ok.inj h
    simp [commit, Stream.sendImpl, Stream.accepts, hfin, SendOp.written]
  | write offer bytes reaction =>
    obtain ⟨⟨vecs, more⟩, -, h⟩ := bind_ok h
    obtain ⟨s, hw, h⟩ := bind_ok h
    obtain rfl := Except.ok.inj h
    exact (Stream.wrote_of_sendFin hfin hw).1
  | acknowledge bytes =>
    obtain ⟨s, ha, h⟩ := bind_ok h
    obtain rfl := Except.ok.inj h
    exact (Stream.acknowledge_keeps ha).2.1.le
  | withdraw keepAlive reaction =>
    obtain ⟨⟨found, s⟩, hw, h⟩ := bind_ok h
    obtain rfl := Except.ok.inj h
    exact (Stream.withdraw_of_sendFin hfin hw).1

/-! ## What agreeing with the ledger says -/

/-- What has been written and what has not add up to the live buffers, in send order. -/
theorem Agrees.consumed_append (h : x.Agrees) :
    x.ledger.consumed ++ x.stream.unsentBytes = bytesOf x.ledger.live := by
  obtain ⟨released, held, hsplit⟩ := h
  rw [hsplit.consumed, hsplit.unsentBytes, List.take_append_drop]

/-- A withdrawn buffer lies wholly after the bytes written. -/
theorem Agrees.withdraw_whole (h : x.Agrees) {keepAlive : KeepAlive} {reaction : Reaction}
    {s : Stream}
    (hw : x.stream.withdraw (Stream.react connOpen reaction) keepAlive = .ok (true, s)) :
    ∃ pre b post, x.ledger.live = pre ++ b :: post ∧ b.keepAlive = keepAlive ∧
      x.ledger.consumed.length ≤ (bytesOf pre).length ∧
      (x.ledger.withdraw keepAlive).live = pre ++ post ∧
      ∃ before after added, x.stream.userBuffers = before ++ b :: after ∧
        s.userBuffers = before ++ after ++ added := by
  obtain ⟨released, held, hsplit⟩ := h
  rcases Stream.withdraw_spec (Stream.react connOpen reaction) keepAlive hsplit.point
    hsplit.unsent with ⟨-, hok⟩ | ⟨skipped, b, after, hd, hskip, rfl, -, hok⟩
  · rw [hok] at hw
    simp at hw
  · obtain ⟨hlive, hle⟩ := hsplit.live_around hd
    obtain ⟨added, alarm, -, hgrow⟩ := Stream.checkWatermark_grow
      (Stream.react_onlySends connOpen reaction)
      (x.stream.shrink b.size (x.stream.userBuffers.take x.stream.firstWhole ++ (skipped ++ after)))
    rw [hok, hgrow] at hw
    obtain rfl : _ = s := (Prod.mk.inj (Except.ok.inj hw)).2
    refine ⟨_, b, after, hlive, rfl, hle, ?_, x.stream.userBuffers.take x.stream.firstWhole ++ skipped,
      after, added, ?_, ?_⟩
    · rw [hsplit.withdraw_eq hd hskip]
      simp
    · rw [List.append_assoc, ← hd, List.take_append_drop]
    · simp [Stream.grow, Stream.shrink]

theorem Agrees.counters (h : x.Agrees) :
    x.stream.ackedBytes + x.stream.unackedSize + x.stream.unsentSize +
      (bytesOf x.ledger.withdrawn).length = (bytesOf x.stream.accepted).length := by
  obtain ⟨released, held, hsplit⟩ := h
  have hperm : (bytesOf (x.ledger.live ++ x.ledger.withdrawn)).length =
      (bytesOf x.stream.accepted).length :=
    ((hsplit.whole.map Buffer.data).flatten).length_eq
  have hlive := hsplit.length_live
  have hle := hsplit.point.le
  rw [bytesOf_append, List.length_append] at hperm
  rw [hsplit.ackedBytes, hsplit.unacked, hsplit.unsent, Stream.unsentBytes, List.length_drop]
  omega

/-- `retained` counts the held buffers at their original sizes. -/
theorem Agrees.retained (h : x.Agrees) :
    ∃ released held, x.ledger.live = released ++ held ∧
      x.stream.userBuffers = Stream.trimFront x.stream.frontTrimmed held ∧
      x.stream.retainedImpl = (bytesOf held).length := by
  obtain ⟨released, held, hsplit⟩ := h
  refine ⟨released, held, hsplit.live, hsplit.buffers, ?_⟩
  have hle := hsplit.point.le
  have hfront := hsplit.front.le
  have hlen : (bytesOf x.stream.userBuffers).length =
      (bytesOf held).length - x.stream.frontTrimmed := by
    rw [hsplit.buffers, Stream.bytesOf_trimFront hsplit.front, List.length_drop]
  rw [Stream.retainedImpl, hsplit.unacked, hsplit.unsent, Stream.unsentBytes, List.length_drop]
  omega

/-- The accounting of a stream's send side, in every state that any interleaving of
sends, writes, acks and withdrawals reaches, and whatever the watermark callbacks send:

* the bytes written, followed by the unsent ones, are the live buffers' in send order, and
  the live and the withdrawn buffers are all that was accepted;
* a buffer is withdrawn only if no byte of it was written;
* the counters measure the deque, and add up to what was sent and not withdrawn;
* no assertion fails and no counter underflows. -/
theorem reachable_accounting (h : machine.Reachable x) :
    (x.ledger.consumed ++ x.stream.unsentBytes = bytesOf x.ledger.live ∧
      x.ledger.live.Sublist x.stream.accepted ∧
      (x.ledger.live ++ x.ledger.withdrawn).Perm x.stream.accepted) ∧
    (∀ connOpen keepAlive reaction s,
      x.stream.withdraw (Stream.react connOpen reaction) keepAlive = .ok (true, s) →
      ∃ pre b post, x.ledger.live = pre ++ b :: post ∧ b.keepAlive = keepAlive ∧
        x.ledger.consumed.length ≤ (bytesOf pre).length ∧
        (x.ledger.withdraw keepAlive).live = pre ++ post ∧
        ∃ before after added, x.stream.userBuffers = before ++ b :: after ∧
          s.userBuffers = before ++ after ++ added) ∧
    (x.stream.unackedSize =
        (bytesOf (x.stream.userBuffers.take x.stream.currentBufferIndex)).length +
          x.stream.currentBufferOffset ∧
      x.stream.unsentSize = x.stream.unsentBytes.length ∧
      x.stream.ackedBytes + x.stream.unackedSize + x.stream.unsentSize +
        (bytesOf x.ledger.withdrawn).length = (bytesOf x.stream.accepted).length ∧
      ∃ released held, x.ledger.live = released ++ held ∧
        x.stream.userBuffers = Stream.trimFront x.stream.frontTrimmed held ∧
        x.stream.retainedImpl = (bytesOf held).length) ∧
    (∀ connOpen op, x.Enabled op → ∃ y, step connOpen x op = .ok y) := by
  have hagrees : x.Agrees := agrees_inductive.reachable h
  obtain ⟨released, held, hsplit⟩ := id hagrees
  refine ⟨⟨hagrees.consumed_append, hsplit.order, hsplit.whole⟩,
    fun connOpen keepAlive reaction s hw => hagrees.withdraw_whole hw,
    ⟨?_, hsplit.unsent, hagrees.counters, hagrees.retained⟩,
    fun connOpen op hen => agrees_inductive.progress (i := (connOpen, op)) h hen⟩
  rw [hsplit.unacked, Stream.sendPoint, Segments.position, bytesOf, List.map_take]

/-- Three sends, a write that ends inside the second buffer, an ack inside the first, and
the third buffer withdrawn. -/
theorem reachable_accounting_partial_write :
    ∃ x, machine.Reachable x ∧ x.stream.frontTrimmed = 1 ∧
      x.ledger.withdrawn = [⟨[6], some 7⟩] ∧ x.ledger.consumed = [1, 2, 3, 4] ∧
      x.ledger.consumed ++ x.stream.unsentBytes = [1, 2, 3, 4, 5] ∧
      x.stream.retainedImpl = 5 := by
  have h0 : machine.Reachable ⟨{}, {}⟩ := .initial (by simp [machine, Initial])
  have hrun : machine.run ⟨{}, {}⟩
      [(true, .send ⟨[1, 2, 3], none⟩ .done), (true, .send ⟨[4, 5], none⟩ .done),
        (true, .send ⟨[6], some 7⟩ .done), (true, .write 10 4 .done),
        (true, .acknowledge 1), (true, .withdraw (some 7) .done)] = some _ := rfl
  have h := h0.run hrun
  exact ⟨_, h, rfl, rfl, rfl, (reachable_accounting h).1.1, rfl⟩

end SendState

end Libquic
