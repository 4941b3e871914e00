import Libquic.Lib.Machine
import Libquic.Lib.Segments
import Libquic.Stream.Basic

/-!
# What each send-buffer function does

One specification for each function of the send buffer, in terms of the send point's
position in the queued bytes. The loops are specified by induction over the buffers
they walk; a watermark callback, whatever it does, can only append buffers.
-/
namespace Libquic

open Lib

/-- The bytes of a list of buffers, in order. -/
def bytesOf (bufs : List Buffer) : Bytes := (bufs.map Buffer.data).flatten

@[simp] theorem bytesOf_nil : bytesOf [] = [] := rfl
@[simp] theorem bytesOf_cons (b : Buffer) (bufs : List Buffer) :
    bytesOf (b :: bufs) = b.data ++ bytesOf bufs := rfl
@[simp] theorem bytesOf_append (xs ys : List Buffer) :
    bytesOf (xs ++ ys) = bytesOf xs ++ bytesOf ys := by simp [bytesOf]

/-- `send_impl` refuses empty data, so every queued buffer holds a byte. -/
def Filled (bufs : List Buffer) : Prop := ∀ b ∈ bufs, b.data ≠ []

theorem Filled.append {xs ys : List Buffer} (hx : Filled xs) (hy : Filled ys) :
    Filled (xs ++ ys) := by
  intro b hb
  exact (List.mem_append.mp hb).elim (hx b) (hy b)

theorem Filled.drop {bufs : List Buffer} (h : Filled bufs) (k : Nat) :
    Filled (bufs.drop k) := fun b hb => h b (List.mem_of_mem_drop hb)

theorem Filled.segments {bufs : List Buffer} (h : Filled bufs) :
    ∀ seg ∈ bufs.map Buffer.data, seg ≠ [] := by
  intro seg hs
  obtain ⟨b, hb, rfl⟩ := List.mem_map.mp hs
  exact h b hb

/-- Leaving out filled buffers leaves out bytes. -/
theorem Filled.take_ne {bufs : List Buffer} (h : Filled bufs) {k : Nat} (hk : k < bufs.length) :
    bytesOf (bufs.take k) ≠ bytesOf bufs := by
  intro he
  have hsplit : bytesOf bufs = bytesOf (bufs.take k) ++ bytesOf (bufs.drop k) := by
    rw [← bytesOf_append, List.take_append_drop]
  rw [he, List.drop_eq_getElem_cons hk, bytesOf_cons] at hsplit
  have hnil := List.append_right_eq_self.mp hsplit.symm
  exact h bufs[k] (List.getElem_mem hk) (List.append_eq_nil_iff.mp hnil).1

namespace Stream

/-! ## Watermark callbacks only append -/

/-- The stream after `added` has been queued and the alarm set to `alarm`. -/
def grow (s : Stream) (added : List Buffer) (alarm : Bool) : Stream :=
  { s with
    userBuffers := s.userBuffers ++ added
    unsentSize := s.unsentSize + (bytesOf added).length
    watermarkAlarm := alarm
    accepted := s.accepted ++ added }

@[simp] theorem grow_index (s : Stream) (added : List Buffer) (alarm : Bool) :
    (s.grow added alarm).currentBufferIndex = s.currentBufferIndex := rfl

@[simp] theorem grow_offset (s : Stream) (added : List Buffer) (alarm : Bool) :
    (s.grow added alarm).currentBufferOffset = s.currentBufferOffset := rfl

theorem grow_grow (s : Stream) (xs ys : List Buffer) (a b : Bool) :
    (s.grow xs a).grow ys b = s.grow (xs ++ ys) b := by
  simp [grow, Nat.add_assoc]

theorem grow_nil (s : Stream) : s.grow [] s.watermarkAlarm = s := by simp [grow]

/-- A callback that can only queue non-empty buffers. -/
def OnlySends (callback : Stream → Stream) : Prop :=
  ∀ s, ∃ added alarm, Filled added ∧ callback s = s.grow added alarm

theorem checkWatermark_grow {callback : Stream → Stream} (h : OnlySends callback) (s : Stream) :
    ∃ added alarm, Filled added ∧ checkWatermark callback s = s.grow added alarm := by
  have fired (alarm : Bool) : ∃ added alarm', Filled added ∧
      callback { s with watermarkAlarm := alarm } = s.grow added alarm' := by
    obtain ⟨added, alarm', hne, he⟩ := h { s with watermarkAlarm := alarm }
    exact ⟨added, alarm', hne, he⟩
  have idle : ∃ added alarm, Filled added ∧ s = s.grow added alarm :=
    ⟨[], s.watermarkAlarm, by simp [Filled], (grow_nil s).symm⟩
  unfold checkWatermark
  split
  · exact idle
  · split
    · split
      · exact fired false
      · exact idle
    · split
      · exact fired true
      · exact idle

theorem sendImpl_grow {callback : Stream → Stream} (h : OnlySends callback) (connOpen : Bool)
    (s : Stream) (b : Buffer) :
    ∃ added alarm, Filled added ∧ sendImpl connOpen callback s b = s.grow added alarm := by
  unfold sendImpl
  split
  · rename_i ok
    have hb : b.data ≠ [] := by
      simp only [accepts, Bool.and_eq_true, Bool.not_eq_true', List.isEmpty_eq_false_iff] at ok
      exact ok.1.1
    obtain ⟨added, alarm, hne, he⟩ := checkWatermark_grow h (s.grow [b] s.watermarkAlarm)
    refine ⟨b :: added, alarm, ?_, ?_⟩
    · intro x hx
      rcases List.mem_cons.mp hx with rfl | hx
      · exact hb
      · exact hne x hx
    · rw [grow_grow] at he
      simpa [appendBuffer, grow, Buffer.size] using he
  · exact ⟨[], s.watermarkAlarm, by simp [Filled], (grow_nil s).symm⟩

theorem react_onlySends (connOpen : Bool) (r : Reaction) : OnlySends (react connOpen r) := by
  induction r with
  | done => exact fun s => ⟨[], s.watermarkAlarm, by simp [Filled], (grow_nil s).symm⟩
  | send data keepAlive inner next ihInner ihNext =>
    intro s
    obtain ⟨xs, a, hx, he⟩ := sendImpl_grow ihInner connOpen s ⟨data, keepAlive⟩
    obtain ⟨ys, b, hy, he'⟩ := ihNext (s.grow xs a)
    exact ⟨xs ++ ys, b, hx.append hy, by rw [react, he, he', grow_grow]⟩

/-! ## The send point -/

/-- The send point is inside a buffer, or after the last. -/
def AtSendPoint (s : Stream) : Prop :=
  Segments.Valid (s.userBuffers.map Buffer.data) s.currentBufferIndex s.currentBufferOffset

/-- The number of queued bytes before the send point. -/
def sendPoint (s : Stream) : Nat :=
  Segments.position (s.userBuffers.map Buffer.data) s.currentBufferIndex s.currentBufferOffset

/-- The bytes from the send point on. -/
def unsentBytes (s : Stream) : Bytes := (bytesOf s.userBuffers).drop s.sendPoint

theorem unsentBytes_eq (s : Stream) :
    s.unsentBytes = (bytesOf (s.userBuffers.drop s.currentBufferIndex)).drop
      s.currentBufferOffset := by
  rw [unsentBytes, sendPoint, bytesOf, Segments.drop_position, bytesOf, List.map_drop]

theorem AtSendPoint.le {s : Stream} (h : s.AtSendPoint) :
    s.sendPoint ≤ (bytesOf s.userBuffers).length := Segments.Valid.position_le h

/-- Only the front of the remaining buffers is entered at an offset, and inside it. -/
def EnteredAt (offset : Nat) : List Buffer → Prop
  | [] => offset = 0
  | b :: _ => offset < b.size

theorem AtSendPoint.entered {s : Stream} (h : s.AtSendPoint) :
    EnteredAt s.currentBufferOffset (s.userBuffers.drop s.currentBufferIndex) := by
  obtain ⟨seg, hs, hlt⟩ | ⟨hi, h0⟩ := h
  · rw [List.getElem?_map, Option.map_eq_some_iff] at hs
    obtain ⟨b, hb, rfl⟩ := hs
    obtain ⟨hi, rfl⟩ := List.getElem?_eq_some_iff.mp hb
    rw [List.drop_eq_getElem_cons hi]
    exact hlt
  · rw [List.length_map] at hi
    simpa [hi, EnteredAt] using h0

theorem EnteredAt.le {n : Nat} {bufs : List Buffer} (h : EnteredAt n bufs) :
    n ≤ (bytesOf bufs).length := by
  cases bufs with
  | nil => exact Nat.le_of_eq h
  | cons b bufs =>
    have : n < b.data.length := h
    rw [bytesOf_cons, List.length_append]
    omega

theorem entered_zero {bufs : List Buffer} (h : Filled bufs) : EnteredAt 0 bufs := by
  cases bufs with
  | nil => rfl
  | cons b bufs => exact List.length_pos_iff.mpr (h b (by simp))

theorem EnteredAt.append {n : Nat} {xs ys : List Buffer} (h : EnteredAt n xs) (hy : Filled ys) :
    EnteredAt n (xs ++ ys) := by
  cases xs with
  | nil =>
    rw [show n = 0 from h]
    exact entered_zero hy
  | cons b xs => exact h

theorem EnteredAt.take {n k : Nat} {bufs : List Buffer} (h : EnteredAt n bufs)
    (h0 : k = 0 → n = 0) : EnteredAt n (bufs.take k) := by
  cases k with
  | zero => exact h0 rfl
  | succ k => cases bufs <;> exact h

theorem bytesOf_trimFront {bufs : List Buffer} {n : Nat} (h : EnteredAt n bufs) :
    bytesOf (trimFront n bufs) = (bytesOf bufs).drop n := by
  cases bufs with
  | nil => simp [trimFront]
  | cons b bufs =>
    have hn : n ≤ b.data.length := Nat.le_of_lt h
    rw [trimFront, bytesOf_cons, bytesOf_cons, List.drop_append_of_le_length hn]

theorem filled_trimFront {n : Nat} {bufs : List Buffer} (h : EnteredAt n bufs) (hf : Filled bufs) :
    Filled (trimFront n bufs) := by
  cases bufs with
  | nil => exact hf
  | cons b bufs =>
    intro x hx
    rcases List.mem_cons.mp hx with rfl | hx
    · have hlt : n < b.data.length := h
      simpa using hlt
    · exact hf x (by simp [hx])

theorem map_trimFront (n : Nat) (bufs : List Buffer) :
    (trimFront n bufs).map Buffer.data = Segments.trim n (bufs.map Buffer.data) := by
  cases bufs <;> rfl

@[simp] theorem trimFront_zero (bufs : List Buffer) : trimFront 0 bufs = bufs := by
  cases bufs <;> rfl

theorem trimFront_append {n : Nat} {xs : List Buffer} (h : EnteredAt n xs) (ys : List Buffer) :
    trimFront n (xs ++ ys) = trimFront n xs ++ ys := by
  cases xs with
  | nil =>
    rw [show n = 0 from h]
    simp only [trimFront_zero]
  | cons b xs => rfl

theorem take_trimFront (n k : Nat) (bufs : List Buffer) :
    (trimFront n bufs).take k = trimFront n (bufs.take k) := by
  cases k <;> cases bufs <;> rfl

theorem drop_trimFront {n k : Nat} (hk : k ≠ 0) (bufs : List Buffer) :
    (trimFront n bufs).drop k = bufs.drop k := by
  obtain ⟨k, rfl⟩ := Nat.exists_eq_succ_of_ne_zero hk
  cases bufs <;> simp [trimFront]

@[simp] theorem length_trimFront (n : Nat) (bufs : List Buffer) :
    (trimFront n bufs).length = bufs.length := by cases bufs <;> rfl

theorem trimFront_trimFront (m n : Nat) (bufs : List Buffer) :
    trimFront m (trimFront n bufs) = trimFront (n + m) bufs := by
  cases bufs <;> simp [trimFront]

/-! ## The loops -/

/-- `pending` offers the bytes from the send point on, whole buffers at a time, and stops
once `bytes` are covered. -/
theorem gather_spec (bytes : Nat) (bufs : List Buffer) (total offset : Nat)
    (h : EnteredAt offset bufs) (hne : Filled bufs) :
    ∃ vecs, gather bytes bufs total offset = .ok vecs ∧ vecs.length ≤ bufs.length ∧
      vecs = ((trimFront offset bufs).map Buffer.data).take vecs.length ∧
      (vecs.length = bufs.length ∨ bytes ≤ total + vecs.flatten.length) := by
  induction bufs generalizing total offset with
  | nil => exact ⟨[], rfl, by simp, by simp, .inl rfl⟩
  | cons b bufs ih =>
    by_cases hk : bytes ≤ total
    · exact ⟨[], by simp [gather, hk], by simp, by simp, .inr (by simpa using hk)⟩
    · have hsub : checkedSub b.size offset = .ok (b.size - offset) :=
        checkedSub_ok (Nat.le_of_lt h)
      have hrest : Filled bufs := fun x hx => hne x (by simp [hx])
      obtain ⟨vecs, hok, hlen, hvecs, hcov⟩ :=
        ih (total + (b.size - offset)) 0 (entered_zero hrest) hrest
      refine ⟨b.data.drop offset :: vecs, ?_, by simpa using hlen, ?_, ?_⟩
      · simp [gather, hk, hsub, hok]
      · rw [trimFront_zero] at hvecs
        simpa [trimFront] using hvecs
      · refine hcov.imp (by simp) ?_
        intro hb
        simp only [List.flatten_cons, List.length_append, List.length_drop]
        rw [Buffer.size] at hb
        omega

/-- `wrote` moves the send point on by exactly the bytes written. -/
theorem advance_spec (bytes : Nat) (bufs : List Buffer) (index offset : Nat)
    (h : EnteredAt offset bufs) (hne : Filled bufs)
    (hle : offset + bytes ≤ (bytesOf bufs).length) :
    ∃ i off, advance bytes bufs index offset = .ok (index + i, off) ∧
      Segments.Valid (bufs.map Buffer.data) i off ∧
      Segments.position (bufs.map Buffer.data) i off = offset + bytes := by
  induction bufs generalizing bytes index offset with
  | nil =>
    obtain rfl : offset = 0 := h
    obtain rfl : bytes = 0 := by simpa using hle
    exact ⟨0, 0, rfl, .inr ⟨rfl, rfl⟩, by simp⟩
  | cons b bufs ih =>
    have hlt : offset < b.data.length := h
    have here (off : Nat) (ho : off < b.data.length) :
        Segments.Valid ((b :: bufs).map Buffer.data) 0 off := .inl ⟨b.data, by simp, ho⟩
    by_cases h0 : bytes = 0
    · exact ⟨0, offset, by simp [advance, h0], here offset hlt, by simp [h0]⟩
    · have hsub : checkedSub b.size offset = .ok (b.size - offset) :=
        checkedSub_ok (Nat.le_of_lt h)
      by_cases hsmall : bytes < b.size - offset
      · refine ⟨0, offset + bytes, by simp [advance, h0, hsub, hsmall], here _ ?_, by simp⟩
        rw [Buffer.size] at hsmall
        omega
      · have hrest : Filled bufs := fun x hx => hne x (by simp [hx])
        have hle' : 0 + (bytes - (b.size - offset)) ≤ (bytesOf bufs).length := by
          simp only [bytesOf_cons, List.length_append] at hle
          rw [Buffer.size] at hsmall ⊢
          omega
        obtain ⟨i, off, hok, hv, hp⟩ :=
          ih (bytes - (b.size - offset)) (index + 1) 0 (entered_zero hrest) hrest hle'
        refine ⟨i + 1, off, ?_, ?_, ?_⟩
        · simp [advance, h0, hsub, hsmall, hok, Nat.add_assoc, Nat.add_comm 1 i]
        · simpa [Segments.Valid] using hv
        · rw [List.map_cons, Segments.position_cons_succ, hp]
          rw [Buffer.size] at hsmall ⊢
          omega

/-- `acknowledge` releases whole buffers, all of them before the send point, and leaves
fewer acked bytes than the new front holds. -/
theorem releaseAcked_spec (bytes : Nat) (bufs : List Buffer) (trimmed index offset : Nat)
    (hv : Segments.Valid (bufs.map Buffer.data) index offset)
    (hle : bytes ≤ Segments.position (bufs.map Buffer.data) index offset) :
    ∃ k left, releaseAcked bytes bufs trimmed index =
        .ok (left, bufs.drop k, if k = 0 then trimmed else 0, index - k) ∧
      k ≤ index ∧ k ≤ bufs.length ∧ bytes = (bytesOf (bufs.take k)).length + left ∧
      (left ≠ 0 → EnteredAt left (bufs.drop k)) := by
  induction bufs generalizing bytes trimmed index with
  | nil =>
    have h0 : bytes = 0 := by
      have := hv.position_le
      simp only [List.map_nil, List.flatten_nil, List.length_nil] at this
      rw [List.map_nil] at hle
      omega
    exact ⟨0, 0, by simp [releaseAcked, h0], by simp, by simp, by simp [h0], by simp⟩
  | cons b bufs ih =>
    by_cases hc : bytes ≠ 0 ∧ b.size ≤ bytes
    · -- The front is fully acked, so the send point is past it.
      cases index with
      | zero =>
        obtain ⟨seg, hs, hlt⟩ | ⟨hi, _⟩ := hv
        · simp only [List.map_cons, List.getElem?_cons_zero, Option.some.injEq] at hs
          subst hs
          rw [Segments.position_zero] at hle
          have := hc.2
          rw [Buffer.size] at this
          omega
        · simp at hi
      | succ index =>
        have hv' : Segments.Valid (bufs.map Buffer.data) index offset := by
          simpa [Segments.Valid] using hv
        rw [List.map_cons, Segments.position_cons_succ] at hle
        obtain ⟨k, left, hok, hki, hkl, hsum, hleft⟩ :=
          ih (bytes - b.size) 0 index hv' (by rw [Buffer.size]; omega)
        have hfront : b.data.length ≤ bytes := hc.2
        have htotal : bytes = (bytesOf ((b :: bufs).take (k + 1))).length + left := by
          simp only [List.take_succ_cons, bytesOf_cons, List.length_append]
          rw [Buffer.size] at hsum
          omega
        refine ⟨k + 1, left, ?_, by omega, by simpa using hkl, htotal, hleft⟩
        simp [releaseAcked, hc, hok]
    · refine ⟨0, bytes, by simp [releaseAcked, hc], by simp, by simp, by simp, ?_⟩
      exact fun h0 => not_le.mp fun hle => hc ⟨h0, hle⟩

/-! ## The operations -/

/-- The stream after the first `k` buffers and `left` bytes of the next have been acked. -/
def release (s : Stream) (bytes k left : Nat) : Stream :=
  { s with
    unackedSize := s.unackedSize - bytes
    ackedBytes := s.ackedBytes + bytes
    userBuffers := trimFront left (s.userBuffers.drop k)
    frontTrimmed := (if k = 0 then s.frontTrimmed else 0) + left
    currentBufferIndex := s.currentBufferIndex - k
    currentBufferOffset :=
      Segments.trimOffset left (s.currentBufferIndex - k) s.currentBufferOffset }

/-- Acking up to all unacked bytes passes every assertion. -/
theorem acknowledge_spec {s : Stream} {bytes : Nat} (hp : s.AtSendPoint)
    (hne : Filled s.userBuffers) (hu : s.unackedSize = s.sendPoint) (hb : bytes ≤ s.unackedSize) :
    ∃ k left, acknowledge s bytes = .ok (s.release bytes k left) ∧
      k ≤ s.currentBufferIndex ∧
      bytes = (bytesOf (s.userBuffers.take k)).length + left ∧
      EnteredAt left (s.userBuffers.drop k) ∧
      (s.currentBufferIndex - k = 0 → left ≤ s.currentBufferOffset) := by
  obtain ⟨k, left, hok, hki, -, hsum, hleft⟩ :=
    releaseAcked_spec bytes s.userBuffers s.frontTrimmed _ _ hp (hb.trans hu.le)
  have hin : EnteredAt left (s.userBuffers.drop k) := by
    by_cases h0 : left = 0
    · exact h0 ▸ entered_zero (hne.drop k)
    · exact hleft h0
  have hoff : s.currentBufferIndex - k = 0 → left ≤ s.currentBufferOffset := by
    intro hz
    have hk : s.currentBufferIndex = k := by omega
    have hpos : s.sendPoint = (bytesOf (s.userBuffers.take k)).length + s.currentBufferOffset := by
      simp [sendPoint, Segments.position, bytesOf, hk]
    omega
  refine ⟨k, left, ?_, hki, hsum, hin, hoff⟩
  have hnot : ¬ s.unackedSize < bytes := by omega
  by_cases h0 : left = 0
  · simp [acknowledge, hnot, checkedSub_ok hb, hok, h0, release, Segments.trimOffset]
  · by_cases hz : s.currentBufferIndex - k = 0
    · have hge : ¬ s.currentBufferOffset < left := by have := hoff hz; omega
      simp [acknowledge, hnot, checkedSub_ok hb, hok, h0, release, Segments.trimOffset, hz, hge]
    · simp [acknowledge, hnot, checkedSub_ok hb, hok, h0, release, Segments.trimOffset, hz]

theorem release_point {s : Stream} {bytes k left : Nat} (hp : s.AtSendPoint)
    (hk : k ≤ s.currentBufferIndex) (hin : EnteredAt left (s.userBuffers.drop k))
    (hoff : s.currentBufferIndex - k = 0 → left ≤ s.currentBufferOffset)
    (hb : bytes = (bytesOf (s.userBuffers.take k)).length + left) :
    (s.release bytes k left).AtSendPoint ∧
      bytes + (s.release bytes k left).sendPoint = s.sendPoint := by
  have hv := Segments.valid_drop hp hk
  rw [← List.map_drop] at hv
  have hpos := Segments.position_drop (s.userBuffers.map Buffer.data) s.currentBufferOffset hk
  have htrim : left + Segments.position (Segments.trim left ((s.userBuffers.drop k).map Buffer.data))
      (s.currentBufferIndex - k)
      (Segments.trimOffset left (s.currentBufferIndex - k) s.currentBufferOffset) =
      Segments.position ((s.userBuffers.drop k).map Buffer.data) (s.currentBufferIndex - k)
        s.currentBufferOffset := by
    refine Segments.position_trim hv hoff ?_ ?_
    · intro seg hseg
      cases hd : s.userBuffers.drop k with
      | nil => simp [hd] at hseg
      | cons b rest =>
        rw [hd] at hin hseg
        obtain rfl : b.data = seg := by simpa using hseg
        exact Nat.le_of_lt hin
    · intro hnil
      rw [List.map_eq_nil_iff.mp hnil] at hin
      exact hin
  refine ⟨?_, ?_⟩
  · simp only [AtSendPoint, release, map_trimFront]
    exact Segments.valid_trim hv hoff
  · rw [← List.map_take, ← List.map_drop] at hpos
    simp only [sendPoint, release, map_trimFront]
    rw [bytesOf] at hb
    omega

/-- The stream after the send point has moved on by `bytes`, to `(index, offset)`. -/
def move (s : Stream) (bytes index offset : Nat) : Stream :=
  { s with
    unackedSize := s.unackedSize + bytes
    unsentSize := s.unsentSize - bytes
    notify := false
    currentBufferIndex := index
    currentBufferOffset := offset }

theorem grow_point {s : Stream} {added : List Buffer} (alarm : Bool) (hp : s.AtSendPoint)
    (hne : Filled added) :
    (s.grow added alarm).AtSendPoint ∧ (s.grow added alarm).sendPoint = s.sendPoint := by
  have hle := hp.index_le
  refine ⟨?_, ?_⟩
  · simp only [AtSendPoint, grow, List.map_append]
    exact Segments.valid_append hp hne.segments
  · simp only [sendPoint, grow, List.map_append]
    exact Segments.position_append hle

theorem grow_unsentBytes {s : Stream} {added : List Buffer} (alarm : Bool) (hp : s.AtSendPoint)
    (hne : Filled added) :
    (s.grow added alarm).unsentBytes = s.unsentBytes ++ bytesOf added := by
  rw [unsentBytes, (grow_point alarm hp hne).2, unsentBytes]
  simp only [grow, bytesOf_append]
  exact List.drop_append_of_le_length hp.le

/-- Writing up to all unsent bytes: whatever the watermark callback queues meanwhile, the
send point moves by what was written. -/
theorem wrote_spec {s : Stream} {callback : Stream → Stream} {bytes : Nat}
    (hc : OnlySends callback) (hp : s.AtSendPoint) (hne : Filled s.userBuffers)
    (hu : s.unsentSize = s.unsentBytes.length) (hb : bytes ≤ s.unsentBytes.length) :
    ∃ added alarm index offset, Filled added ∧
      wrote callback s bytes = .ok ((s.grow added alarm).move bytes index offset) ∧
      ((s.grow added alarm).move bytes index offset).AtSendPoint ∧
      ((s.grow added alarm).move bytes index offset).sendPoint = s.sendPoint + bytes := by
  obtain ⟨added, alarm, hadded, hw⟩ := checkWatermark_grow hc
    { s with unackedSize := s.unackedSize + bytes, unsentSize := s.unsentSize - bytes, notify := false }
  obtain ⟨hp', hpos'⟩ := grow_point alarm hp hadded
  have hne' : Filled (s.grow added alarm).userBuffers := hne.append hadded
  have hroom : s.currentBufferOffset + bytes ≤
      (bytesOf ((s.grow added alarm).userBuffers.drop s.currentBufferIndex)).length := by
    have hfit : s.currentBufferOffset ≤
      (bytesOf ((s.grow added alarm).userBuffers.drop s.currentBufferIndex)).length :=
      hp'.entered.le
    have hlen : (s.grow added alarm).unsentBytes.length =
        (bytesOf ((s.grow added alarm).userBuffers.drop s.currentBufferIndex)).length -
          s.currentBufferOffset := by rw [unsentBytes_eq, List.length_drop]; rfl
    rw [grow_unsentBytes alarm hp hadded, List.length_append] at hlen
    omega
  obtain ⟨i, offset, hok, hv, hpos⟩ := advance_spec bytes _ s.currentBufferIndex _
    hp'.entered (hne'.drop _) hroom
  refine ⟨added, alarm, s.currentBufferIndex + i, offset, hadded, ?_, ?_, ?_⟩
  · have hsub : s.unsentSize - bytes + (bytesOf added).length =
        s.unsentSize + (bytesOf added).length - bytes := by omega
    rw [wrote, checkedSub_ok (hb.trans hu.ge), ok_bind]
    simp only [hw]
    simp only [grow] at hok ⊢
    rw [hok, ok_bind]
    simp [move, hsub]
  · rw [List.map_drop] at hv
    exact Segments.valid_of_drop hv hp'.index_le
  · have hsum := Segments.position_drop ((s.grow added alarm).userBuffers.map Buffer.data) offset
      (Nat.le_add_right s.currentBufferIndex i)
    simp only [sendPoint, Segments.position, grow_index, grow_offset] at hpos'
    simp only [List.map_drop, grow_index, grow_offset] at hpos
    rw [Nat.add_sub_cancel_left, hpos, ← Nat.add_assoc, hpos'] at hsum
    exact hsum.symm

/-- What `pending` offers is a prefix of the unsent bytes. It is all of them exactly if no
more is reported; otherwise it covers at least the bytes asked for. -/
theorem pending_spec {s : Stream} (bytes : Nat) (hp : s.AtSendPoint) (hne : Filled s.userBuffers)
    (hu : s.unsentSize = s.unsentBytes.length) :
    ∃ vecs more, pending s bytes = .ok (vecs, more) ∧ vecs.flatten <+: s.unsentBytes ∧
      (more = false ↔ vecs.flatten = s.unsentBytes) ∧
      (more = true → bytes ≤ vecs.flatten.length) := by
  by_cases hz : s.userBuffers = [] ∨ s.unsentSize = 0
  · have hnone : s.unsentBytes = [] := by
      rcases hz with hz | hz
      · simp [unsentBytes, hz]
      · exact List.length_eq_zero_iff.mp (hu ▸ hz)
    have hflat : (if s.notify then [[]] else [] : List Bytes).flatten = [] := by split <;> rfl
    refine ⟨_, false, by rw [pending, if_pos hz], ?_, ?_, by simp⟩
    · rw [hflat]
      exact List.nil_prefix
    · exact iff_of_true rfl (hflat.trans hnone.symm)
  · obtain ⟨vecs, hok, hlen, hvecs, hcov⟩ :=
      gather_spec bytes _ 0 _ hp.entered (hne.drop s.currentBufferIndex)
    have htrim : bytesOf (trimFront s.currentBufferOffset
        (s.userBuffers.drop s.currentBufferIndex)) = s.unsentBytes := by
      rw [unsentBytes_eq, bytesOf_trimFront hp.entered]
    have hfilled := filled_trimFront hp.entered (hne.drop s.currentBufferIndex)
    have hflat : vecs.flatten = bytesOf ((trimFront s.currentBufferOffset
        (s.userBuffers.drop s.currentBufferIndex)).take vecs.length) := by
      rw [bytesOf, List.map_take, ← hvecs]
    have hpre : vecs.flatten <+: s.unsentBytes := by
      rw [hvecs, ← htrim, bytesOf]
      exact (List.take_prefix _ _).flatten
    have hidx : s.currentBufferIndex ≤ s.userBuffers.length := by simpa using hp.index_le
    rw [List.length_drop] at hlen hcov
    refine ⟨vecs, _, by rw [pending, if_neg hz, hok]; rfl, hpre, ?_, ?_⟩
    · have hlen' : vecs.length ≤ (trimFront s.currentBufferOffset
          (s.userBuffers.drop s.currentBufferIndex)).length := by
        rwa [length_trimFront, List.length_drop]
      have hmore : s.currentBufferIndex + vecs.length = s.userBuffers.length ↔ vecs.length =
          (trimFront s.currentBufferOffset (s.userBuffers.drop s.currentBufferIndex)).length := by
        rw [length_trimFront, List.length_drop]
        omega
      rw [bne_eq_false_iff_eq, hmore, hflat, ← htrim]
      constructor
      · intro hall
        rw [hall, List.take_length]
      · intro hsame
        by_contra hlt
        exact hfilled.take_ne (by omega) hsame
    · intro hmore
      have : s.currentBufferIndex + vecs.length ≠ s.userBuffers.length := by simpa using hmore
      omega

/-- The index of the first buffer with no byte sent. -/
def firstWhole (s : Stream) : Nat := s.currentBufferIndex + if s.started then 1 else 0

/-- The stream once the buffers have become `bufs`, `bytes` unsent bytes the fewer. -/
def shrink (s : Stream) (bytes : Nat) (bufs : List Buffer) : Stream :=
  { s with unsentSize := s.unsentSize - bytes, userBuffers := bufs }

theorem firstWhole_started {s : Stream} (h : 0 < s.currentBufferOffset) :
    s.currentBufferIndex < s.firstWhole := by
  simp [firstWhole, started, h]

/-- The wholly unsent buffers hold no more than the unsent bytes. -/
theorem length_firstWhole_le {s : Stream} (hp : s.AtSendPoint) :
    (bytesOf (s.userBuffers.drop s.firstWhole)).length ≤ s.unsentBytes.length := by
  have hin := hp.entered
  rw [unsentBytes_eq, List.length_drop, firstWhole, ← List.drop_drop]
  cases hd : s.userBuffers.drop s.currentBufferIndex with
  | nil => simp
  | cons b rest =>
    rw [hd] at hin
    have hlt : s.currentBufferOffset < b.data.length := hin
    simp only [bytesOf_cons, List.length_append]
    cases hs : s.started with
    | true =>
      simp only [if_true, List.drop_succ_cons, List.drop_zero]
      omega
    | false =>
      have h0 : s.currentBufferOffset = 0 := by
        simp only [started, Bool.or_eq_false_iff, decide_eq_false_iff_not] at hs
        omega
      simp [h0]

/-- Taking out a whole unsent buffer leaves the send point where it was. -/
theorem shrink_point {s : Stream} {skipped after : List Buffer} {b : Buffer} (hp : s.AtSendPoint)
    (hne : Filled s.userBuffers)
    (hd : s.userBuffers.drop s.firstWhole = skipped ++ b :: after) :
    (s.shrink b.size (s.userBuffers.take s.firstWhole ++ (skipped ++ after))).AtSendPoint ∧
      (s.shrink b.size (s.userBuffers.take s.firstWhole ++ (skipped ++ after))).sendPoint =
        s.sendPoint := by
  have hsplit : s.userBuffers = (s.userBuffers.take s.firstWhole ++ skipped) ++ b :: after := by
    rw [List.append_assoc, ← hd, List.take_append_drop]
  have hfirst : s.firstWhole ≤ (s.userBuffers.take s.firstWhole ++ skipped).length := by
    have hlen := congrArg List.length hd
    rw [List.length_drop, List.length_append, List.length_cons] at hlen
    rw [List.length_append, List.length_take]
    omega
  have hidx : s.currentBufferIndex ≤ s.firstWhole := Nat.le_add_right ..
  have hafter : Filled after := by
    intro x hx
    apply hne x
    rw [hsplit]
    simp [hx]
  rw [← List.append_assoc]
  refine ⟨?_, ?_⟩
  · rw [AtSendPoint, hsplit, List.map_append, List.map_cons] at hp
    simp only [AtSendPoint, shrink]
    rw [List.map_append]
    refine Segments.valid_remove hp ?_ ?_ hafter.segments
    · rw [List.length_map]
      omega
    · intro hoff
      have := firstWhole_started hoff
      rw [List.length_map]
      omega
  · have hle : s.currentBufferIndex ≤
        ((s.userBuffers.take s.firstWhole ++ skipped).map Buffer.data).length := by
      rw [List.length_map]
      omega
    have hbefore : s.sendPoint = Segments.position
        ((s.userBuffers.take s.firstWhole ++ skipped).map Buffer.data) s.currentBufferIndex
        s.currentBufferOffset := by
      conv_lhs => rw [sendPoint, hsplit, List.map_append]
      exact Segments.position_append hle
    rw [hbefore]
    simp only [sendPoint, shrink]
    rw [List.map_append]
    exact Segments.position_append hle

/-- `withdraw` either finds no such buffer or takes out the first one that is wholly
unsent. -/
theorem withdraw_spec {s : Stream} (callback : Stream → Stream) (keepAlive : KeepAlive)
    (hp : s.AtSendPoint) (hu : s.unsentSize = s.unsentBytes.length) :
    ((∀ b ∈ s.userBuffers.drop s.firstWhole, b.keepAlive ≠ keepAlive) ∧
        withdraw callback s keepAlive = .ok (false, s)) ∨
      ∃ (skipped : List Buffer) (b : Buffer) (after : List Buffer),
        s.userBuffers.drop s.firstWhole = skipped ++ b :: after ∧
        (∀ x ∈ skipped, x.keepAlive ≠ keepAlive) ∧ b.keepAlive = keepAlive ∧
        b.size ≤ s.unsentSize ∧
        withdraw callback s keepAlive = .ok (true, checkWatermark callback
          (s.shrink b.size (s.userBuffers.take s.firstWhole ++ (skipped ++ after)))) := by
  have hfold : s.currentBufferIndex + (if s.started then 1 else 0) = s.firstWhole := rfl
  cases hf : (s.userBuffers.drop s.firstWhole).findIdx? (·.keepAlive = keepAlive) with
  | none =>
    refine .inl ⟨?_, by simp [withdraw, hfold, hf]⟩
    intro b hb
    simpa using List.findIdx?_eq_none_iff.mp hf b hb
  | some j =>
    obtain ⟨hj, hmatch, hskip⟩ := List.findIdx?_eq_some_iff_getElem.mp hf
    have hsplit : s.userBuffers.drop s.firstWhole = (s.userBuffers.drop s.firstWhole).take j ++
        (s.userBuffers.drop s.firstWhole)[j] :: (s.userBuffers.drop s.firstWhole).drop (j + 1) := by
      rw [List.getElem_cons_drop, List.take_append_drop]
    have hsize : (s.userBuffers.drop s.firstWhole)[j].size ≤ s.unsentSize := by
      have hle := length_firstWhole_le hp
      rw [hsplit, bytesOf_append, bytesOf_cons, List.length_append, List.length_append] at hle
      rw [hu, Buffer.size]
      omega
    refine .inr ⟨_, _, _, hsplit, ?_, by simpa using hmatch, hsize, ?_⟩
    · intro x hx
      obtain ⟨k, hk, rfl⟩ := List.mem_take_iff_getElem.mp hx
      simpa using hskip k (by omega)
    · have hget : s.userBuffers[s.firstWhole + j]? =
          some (s.userBuffers.drop s.firstWhole)[j] := by
        rw [← List.getElem?_drop, List.getElem?_eq_getElem hj]
      have herase : s.userBuffers.eraseIdx (s.firstWhole + j) = s.userBuffers.take s.firstWhole ++
          ((s.userBuffers.drop s.firstWhole).take j ++
            (s.userBuffers.drop s.firstWhole).drop (j + 1)) := by
        rw [List.eraseIdx_eq_take_drop_succ, List.take_add, List.drop_drop, List.append_assoc,
          Nat.add_assoc]
      simp only [withdraw, hfold, hf, hget, checkedSub_ok hsize, ok_bind, pure_eq_ok, herase]
      rfl

/-! ## The FIN flags -/

/-- Sending data and acks leave the FIN flags alone. -/
def SameFlags (t s : Stream) : Prop := t.sendFin = s.sendFin ∧ t.sentFin = s.sentFin

theorem checkWatermark_sameFlags {callback : Stream → Stream} (hc : OnlySends callback)
    (s : Stream) : (checkWatermark callback s).SameFlags s := by
  obtain ⟨added, alarm, -, he⟩ := checkWatermark_grow hc s
  rw [he]
  exact ⟨rfl, rfl⟩

theorem sendImpl_sameFlags {callback : Stream → Stream} (hc : OnlySends callback)
    (connOpen : Bool) (s : Stream) (b : Buffer) :
    (sendImpl connOpen callback s b).SameFlags s := by
  obtain ⟨added, alarm, -, he⟩ := sendImpl_grow hc connOpen s b
  rw [he]
  exact ⟨rfl, rfl⟩

theorem wrote_sameFlags {callback : Stream → Stream} (hc : OnlySends callback) {s t : Stream}
    {bytes : Nat} (h : wrote callback s bytes = .ok t) : t.SameFlags s := by
  obtain ⟨unsent, -, h⟩ := bind_ok h
  obtain ⟨⟨index, offset⟩, -, h⟩ := bind_ok h
  obtain rfl := Except.ok.inj h
  exact checkWatermark_sameFlags hc { s with unackedSize := _, unsentSize := _, notify := _ }

/-- `withdraw` changes nothing, or takes buffers out and checks the watermark. -/
theorem withdraw_cases {callback : Stream → Stream} {s t : Stream} {keepAlive : KeepAlive}
    {found : Bool} (h : withdraw callback s keepAlive = .ok (found, t)) :
    t = s ∨ ∃ bytes bufs, t = checkWatermark callback (s.shrink bytes bufs) := by
  have hfold : s.currentBufferIndex + (if s.started then 1 else 0) = s.firstWhole := rfl
  simp only [withdraw, hfold] at h
  split at h
  · exact .inl (Prod.mk.inj (Except.ok.inj h)).2.symm
  · split at h
    · obtain ⟨unsent, hsub, h⟩ := bind_ok h
      obtain ⟨-, rfl⟩ := checkedSub_eq_ok hsub
      exact .inr ⟨_, _, (Prod.mk.inj (Except.ok.inj h)).2.symm⟩
    · cases h

theorem withdraw_sameFlags {callback : Stream → Stream} (hc : OnlySends callback) {s t : Stream}
    {keepAlive : KeepAlive} {found : Bool} (h : withdraw callback s keepAlive = .ok (found, t)) :
    t.SameFlags s := by
  rcases withdraw_cases h with rfl | ⟨bytes, bufs, rfl⟩
  · exact ⟨rfl, rfl⟩
  · exact checkWatermark_sameFlags hc (s.shrink bytes bufs)

theorem acknowledge_keeps {s t : Stream} {bytes : Nat} (h : acknowledge s bytes = .ok t) :
    t.SameFlags s ∧ t.unsentSize = s.unsentSize ∧ t.watermarking = s.watermarking ∧
      t.watermarkAlarm = s.watermarkAlarm ∧ t.accepted = s.accepted := by
  unfold acknowledge at h
  split at h
  · cases h
  · obtain ⟨unacked, -, h⟩ := bind_ok h
    obtain ⟨⟨left, bufs, trimmed, index⟩, -, h⟩ := bind_ok h
    dsimp only at h
    split at h
    · obtain rfl := Except.ok.inj h
      exact ⟨⟨rfl, rfl⟩, rfl, rfl, rfl, rfl⟩
    · split at h
      · split at h
        · cases h
        · obtain rfl := Except.ok.inj h
          exact ⟨⟨rfl, rfl⟩, rfl, rfl, rfl, rfl⟩
      · obtain rfl := Except.ok.inj h
        exact ⟨⟨rfl, rfl⟩, rfl, rfl, rfl, rfl⟩

/-- After `send_fin` nothing more is queued. -/
theorem react_of_sendFin {s : Stream} (h : s.sendFin = true) (connOpen : Bool) (r : Reaction) :
    react connOpen r s = s := by
  induction r with
  | done => rfl
  | send data keepAlive inner next _ ihNext =>
    have hdrop : sendImpl connOpen (react connOpen inner) s ⟨data, keepAlive⟩ = s := by
      simp [sendImpl, accepts, h]
    rw [react, hdrop, ihNext]

theorem checkWatermark_of_sendFin {s : Stream} (h : s.sendFin = true) (connOpen : Bool)
    (r : Reaction) :
    ∃ alarm, checkWatermark (react connOpen r) s = { s with watermarkAlarm := alarm } := by
  have hreact (alarm : Bool) : react connOpen r { s with watermarkAlarm := alarm } =
      { s with watermarkAlarm := alarm } := by
    apply react_of_sendFin
    exact h
  unfold checkWatermark
  split
  · exact ⟨s.watermarkAlarm, rfl⟩
  · split_ifs
    · exact ⟨false, hreact false⟩
    · exact ⟨s.watermarkAlarm, rfl⟩
    · exact ⟨true, hreact true⟩
    · exact ⟨s.watermarkAlarm, rfl⟩

theorem wrote_of_sendFin {connOpen : Bool} {r : Reaction} {s t : Stream} {bytes : Nat}
    (hfin : s.sendFin = true) (h : wrote (react connOpen r) s bytes = .ok t) :
    t.unsentSize + bytes ≤ s.unsentSize ∧ t.userBuffers = s.userBuffers ∧
      t.accepted = s.accepted := by
  obtain ⟨unsent, hsub, h⟩ := bind_ok h
  obtain ⟨⟨index, offset⟩, -, h⟩ := bind_ok h
  obtain rfl := Except.ok.inj h
  obtain ⟨hle, rfl⟩ := checkedSub_eq_ok hsub
  obtain ⟨alarm, hmark⟩ := checkWatermark_of_sendFin (s := { s with
    unackedSize := s.unackedSize + bytes, unsentSize := s.unsentSize - bytes, notify := false })
    hfin connOpen r
  rw [hmark]
  exact ⟨by dsimp only; omega, rfl, rfl⟩

theorem withdraw_of_sendFin {connOpen : Bool} {r : Reaction} {s t : Stream}
    {keepAlive : KeepAlive} {found : Bool} (hfin : s.sendFin = true)
    (h : withdraw (react connOpen r) s keepAlive = .ok (found, t)) :
    t.unsentSize ≤ s.unsentSize ∧ t.accepted = s.accepted := by
  rcases withdraw_cases h with rfl | ⟨bytes, bufs, rfl⟩
  · exact ⟨le_rfl, rfl⟩
  · obtain ⟨alarm, hmark⟩ :=
      checkWatermark_of_sendFin (s := s.shrink bytes bufs) hfin connOpen r
    rw [hmark]
    exact ⟨Nat.sub_le .., rfl⟩

end Stream

end Libquic
