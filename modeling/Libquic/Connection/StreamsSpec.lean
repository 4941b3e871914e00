import Libquic.Connection.Streams

/-!
# What callbacks do to stream objects

`Frame` says what any application code that runs in a callback can do to the connection.
The functions that run callbacks are specified from it.
-/
namespace Libquic

open Lib

namespace StreamConn

variable {x y z : StreamConn} {r ref : Nat}

/-! ## The containers -/

/-- No key of `_streams` is in the way of a new one. -/
structure KeysFree (x : StreamConn) : Prop where
  streams : (x.streams.map Prod.fst).Nodup
  queued : (x.streamQueue.map Prod.fst).Nodup
  local_ : ∀ entry ∈ x.streams, entry.1 % 4 = x.nextStreamId % 4 → entry.1 < x.nextStreamId
  queue : ∀ entry ∈ x.streamQueue, entry.1 < x.nextIncomingStreamId
  remote : ∀ entry ∈ x.streamQueue, entry.1 % 4 = x.nextIncomingStreamId % 4
  sides : x.nextIncomingStreamId % 4 ≠ x.nextStreamId % 4

/-- Each object is in at most one place. -/
structure Wf (x : StreamConn) : Prop extends KeysFree x where
  nodup : x.stored.Nodup
  lt : ∀ r ∈ x.stored, r < x.count
  strays : ∀ r ∈ x.strays, r < x.count

/-- The containers are the same. -/
structure SameStored (x y : StreamConn) : Prop where
  streams : y.streams = x.streams
  queue : y.streamQueue = x.streamQueue
  pending : y.pendingStreams = x.pendingStreams

/-- New entries of `_streams` have ids of this side. -/
structure SameSides (x y : StreamConn) : Prop where
  streams : ∀ entry ∈ y.streams, entry ∈ x.streams ∨ entry.1 % 4 = x.nextStreamId % 4
  next : y.nextStreamId % 4 = x.nextStreamId % 4
  incoming : y.nextIncomingStreamId % 4 = x.nextIncomingStreamId % 4

theorem SameSides.of_eq (hs : y.streams = x.streams) (hn : y.nextStreamId = x.nextStreamId)
    (hi : y.nextIncomingStreamId = x.nextIncomingStreamId) : SameSides x y :=
  ⟨fun _ h => .inl (hs ▸ h), by rw [hn], by rw [hi]⟩

theorem SameSides.trans (hxy : SameSides x y) (hyz : SameSides y z) : SameSides x z where
  streams entry h := by
    rcases hyz.streams entry h with h | h
    · exact hxy.streams entry h
    · exact .inr (h.trans hxy.next)
  next := hyz.next.trans hxy.next
  incoming := hyz.incoming.trans hxy.incoming

/-! ## What callbacks do -/

/-- All that application code can do to an object is to close it. -/
def Kept (o p : StreamObj) : Prop :=
  p = o ∨ (o.isClosing = false ∧ p = { o with isClosing := true, appClosed := true })

/-- A stream that was closed as soon as it was made. -/
structure Refused (x : StreamConn) (r : Nat) : Prop where
  closing : (x.objs r).isClosing = true
  calls : (x.objs r).closedCalls = 1
  conn : (x.objs r).conn = true ↔ r ∈ x.strays

/-- A stream in a container that nothing but `close` has touched. -/
structure Live (x : StreamConn) (r : Nat) : Prop where
  stored : r ∈ x.stored
  calls : (x.objs r).closedCalls = 0
  conn : (x.objs r).conn = true
  closing : (x.objs r).isClosing = (x.objs r).appClosed
  strays : r ∉ x.strays

/-- From `x` to `y` streams were made, none was taken from its container, and the connection
did not end: on one that has ended, all new streams are refused. -/
structure Grows (x y : StreamConn) : Prop where
  ended : y.ended = x.ended
  count : x.count ≤ y.count
  stored : ∀ r < x.count, r ∈ y.stored ↔ r ∈ x.stored
  refused : x.ended = true → SameStored x y ∧ ∀ r, x.count ≤ r → r < y.count → Refused y r
  live : x.ended = false → ∀ r, x.count ≤ r → r < y.count → Live y r
  streams : ∀ entry ∈ x.streams, entry ∈ y.streams
  queue : x.streamQueue <+: y.streamQueue
  sides : SameSides x y
  wf : y.Wf
  calls : ∃ made, y.calls = x.calls ++ made ∧
    ∀ call ∈ made, (x.ended = true → call.closed = true ∧ call.stored = false) ∧
      (x.ended = false → call.stored = true)

/-- What application code can do, from `x` to `y`. -/
structure Frame (x y : StreamConn) : Prop extends Grows x y where
  old : ∀ r < x.count, Kept (x.objs r) (y.objs r)
  strays : ∀ r < x.count, r ∈ y.strays ↔ r ∈ x.strays

theorem Kept.trans {o p q : StreamObj} (hop : Kept o p) (hpq : Kept p q) : Kept o q := by
  rcases hop with rfl | ⟨ho, rfl⟩
  · exact hpq
  · rcases hpq with rfl | ⟨hp, -⟩
    · exact .inr ⟨ho, rfl⟩
    · cases hp

/-- An object that is closing stays as it is. -/
theorem Kept.eq {o p : StreamObj} (h : Kept o p) (ho : o.isClosing = true) : p = o := by
  rcases h with rfl | ⟨hf, -⟩
  · rfl
  · rw [ho] at hf
    cases hf

theorem SameStored.stored (h : SameStored x y) : y.stored = x.stored := by
  rw [StreamConn.stored, h.streams, h.queue, h.pending]
  rfl

theorem SameStored.trans (hxy : SameStored x y) (hyz : SameStored y z) : SameStored x z :=
  ⟨hyz.streams.trans hxy.streams, hyz.queue.trans hxy.queue, hyz.pending.trans hxy.pending⟩

namespace Frame

theorem refl (h : x.Wf) : Frame x x where
  ended := rfl
  count := le_rfl
  old _ _ := .inl rfl
  stored _ _ := .rfl
  strays _ _ := .rfl
  refused _ := ⟨⟨rfl, rfl, rfl⟩, fun _ hle hlt => by omega⟩
  live _ _ hle hlt := by omega
  streams _ h := h
  queue := List.prefix_rfl
  sides := .of_eq rfl rfl rfl
  wf := h
  calls := ⟨[], by simp, by simp⟩

theorem trans (hxy : Frame x y) (hyz : Frame y z) : Frame x z where
  ended := hyz.ended.trans hxy.ended
  count := hxy.count.trans hyz.count
  old r hr := (hxy.old r hr).trans (hyz.old r (hr.trans_le hxy.count))
  stored r hr := (hyz.stored r (hr.trans_le hxy.count)).trans (hxy.stored r hr)
  strays r hr := (hyz.strays r (hr.trans_le hxy.count)).trans (hxy.strays r hr)
  refused hx := by
    obtain ⟨hsame, hnew⟩ := hxy.refused hx
    obtain ⟨hsame', hnew'⟩ := hyz.refused (hxy.ended.trans hx)
    refine ⟨hsame.trans hsame', fun r hle hlt => ?_⟩
    by_cases hry : r < y.count
    · have h := hnew r hle hry
      have hobj : z.objs r = y.objs r := (hyz.old r hry).eq h.closing
      exact ⟨hobj ▸ h.closing, hobj ▸ h.calls, by rw [hobj, hyz.strays r hry]; exact h.conn⟩
    · exact hnew' r (Nat.le_of_not_lt hry) hlt
  live hx r hle hlt := by
    by_cases hry : r < y.count
    · have h := hxy.live hx r hle hry
      rcases hyz.old r hry with hobj | ⟨-, hobj⟩
      · exact ⟨(hyz.stored r hry).mpr h.stored, hobj ▸ h.calls, hobj ▸ h.conn, hobj ▸ h.closing,
          mt (hyz.strays r hry).mp h.strays⟩
      · exact ⟨(hyz.stored r hry).mpr h.stored, by rw [hobj]; exact h.calls,
          by rw [hobj]; exact h.conn, by simp [hobj], mt (hyz.strays r hry).mp h.strays⟩
    · exact hyz.live (hxy.ended.trans hx) r (Nat.le_of_not_lt hry) hlt
  streams entry h := hyz.streams entry (hxy.streams entry h)
  queue := hxy.queue.trans hyz.queue
  sides := hxy.sides.trans hyz.sides
  wf := hyz.wf
  calls := by
    obtain ⟨made, heq, hmade⟩ := hxy.calls
    obtain ⟨made', heq', hmade'⟩ := hyz.calls
    refine ⟨made ++ made', by rw [heq', heq, List.append_assoc], fun call hcall => ?_⟩
    rcases List.mem_append.mp hcall with h | h
    · exact hmade call h
    · exact hxy.ended ▸ hmade' call h

end Frame

theorem KeysFree.congr (h : x.KeysFree) (hs : y.streams = x.streams)
    (hq : y.streamQueue = x.streamQueue) (hn : y.nextStreamId = x.nextStreamId)
    (hi : y.nextIncomingStreamId = x.nextIncomingStreamId) : y.KeysFree where
  streams := hs ▸ h.streams
  queued := hq ▸ h.queued
  local_ := by rw [hs, hn]; exact h.local_
  queue := by rw [hq, hi]; exact h.queue
  remote := by rw [hq, hi]; exact h.remote
  sides := by rw [hi, hn]; exact h.sides

theorem Wf.congr (h : x.Wf) (hs : SameStored x y) (hn : y.nextStreamId = x.nextStreamId)
    (hi : y.nextIncomingStreamId = x.nextIncomingStreamId) (hc : x.count ≤ y.count)
    (hst : ∀ r ∈ y.strays, r < y.count) : y.Wf where
  toKeysFree := h.toKeysFree.congr hs.streams hs.queue hn hi
  nodup := hs.stored ▸ h.nodup
  lt := by rw [hs.stored]; exact fun r hr => (h.lt r hr).trans_le hc
  strays := hst

theorem modify_objs_of_ne {f : StreamObj → StreamObj} (h : r ≠ ref) :
    (x.modify ref f).objs r = x.objs r := Function.update_of_ne h ..

@[simp] theorem modify_objs_self {f : StreamObj → StreamObj} :
    (x.modify ref f).objs ref = f (x.objs ref) := Function.update_self ..

/-- Changing an object leaves the containers alone. -/
theorem Wf.modify (h : x.Wf) (ref : Nat) (f : StreamObj → StreamObj) : (x.modify ref f).Wf :=
  h.congr ⟨rfl, rfl, rfl⟩ rfl rfl le_rfl h.strays

theorem close_of_closing (h : (x.objs ref).isClosing = true) : x.close ref = x := by
  simp [close, StreamConn.modify, h]

theorem close_frame (h : x.Wf) (ref : Nat) : Frame x (x.close ref) where
  ended := rfl
  count := le_rfl
  old r _ := by
    by_cases hr : r = ref
    · subst hr
      rw [close, modify_objs_self]
      split_ifs with hc
      · exact .inl rfl
      · exact .inr ⟨by simpa using hc, rfl⟩
    · rw [close, modify_objs_of_ne hr]
      exact .inl rfl
  stored _ _ := .rfl
  strays _ _ := .rfl
  refused _ := ⟨⟨rfl, rfl, rfl⟩, fun _ hle hlt => absurd hlt (Nat.not_lt.mpr hle)⟩
  live _ _ hle hlt := absurd hlt (Nat.not_lt.mpr hle)
  streams _ h := h
  queue := List.prefix_rfl
  sides := .of_eq rfl rfl rfl
  wf := h.modify ref _
  calls := ⟨[], by simp [close, StreamConn.modify], by simp⟩

/-! ## Closing a stream -/

/-- The connection right before the close callback of `ref` runs. -/
def beforeClosed (x : StreamConn) (ref : Nat) : StreamConn :=
  { x.modify ref fun o => { o with isClosing := true, closedCalls := o.closedCalls + 1 } with
    strays := if (x.objs ref).kind = .btRequest then x.strays ++ [ref] else x.strays }

/-- `closed` resets `_conn` afterwards, unless it is overridden. -/
def afterClosed (x : StreamConn) (ref : Nat) : StreamConn :=
  if (x.objs ref).kind = .btRequest then x else x.modify ref fun o => { o with conn := false }

theorem streamExecuteClose_of_closing (callback : StreamConn → StreamConn)
    (h : (x.objs ref).isClosing = true) :
    x.streamExecuteClose callback ref = { x with strays := x.strays ++ [ref] } := by
  have hobj : (fun o : StreamObj => { o with isClosing := true }) (x.objs ref) = x.objs ref := by
    dsimp only
    rw [← h]
  simp [streamExecuteClose, h, StreamConn.modify, hobj]

theorem Wf.beforeClosed (h : x.Wf) (hr : ref < x.count) : (x.beforeClosed ref).Wf := by
  refine h.congr ⟨rfl, rfl, rfl⟩ rfl rfl le_rfl fun r hmem => ?_
  unfold StreamConn.beforeClosed at hmem
  dsimp only at hmem
  split_ifs at hmem
  · rcases List.mem_append.mp hmem with hmem | hmem
    · exact h.strays r hmem
    · exact List.mem_singleton.mp hmem ▸ hr
  · exact h.strays r hmem

@[simp] theorem beforeClosed_objs_self : (x.beforeClosed ref).objs ref =
    { x.objs ref with isClosing := true, closedCalls := (x.objs ref).closedCalls + 1 } := by
  simp [beforeClosed, StreamConn.modify]

theorem beforeClosed_objs_of_ne (h : r ≠ ref) : (x.beforeClosed ref).objs r = x.objs r := by
  simp [beforeClosed, StreamConn.modify, Function.update_of_ne h]

theorem mem_strays_beforeClosed : r ∈ (x.beforeClosed ref).strays ↔
    r ∈ x.strays ∨ ((x.objs ref).kind = .btRequest ∧ r = ref) := by
  unfold beforeClosed
  dsimp only
  split_ifs with h <;> simp [h]

/-- A callback does not touch the stream that is being closed. -/
theorem Frame.objs_closing {callback : StreamConn → StreamConn}
    (hcb : Frame (x.beforeClosed ref) (callback (x.beforeClosed ref))) (hr : ref < x.count) :
    (callback (x.beforeClosed ref)).objs ref = (x.beforeClosed ref).objs ref :=
  (hcb.old ref hr).eq (by rw [beforeClosed_objs_self])

theorem streamExecuteClose_eq {callback : StreamConn → StreamConn}
    (hcb : Frame (x.beforeClosed ref) (callback (x.beforeClosed ref))) (hr : ref < x.count)
    (h : (x.objs ref).isClosing = false) :
    x.streamExecuteClose callback ref = (callback (x.beforeClosed ref)).afterClosed ref := by
  have hobj := hcb.objs_closing hr
  rw [beforeClosed_objs_self] at hobj
  obtain ⟨y, hexec, hbefore⟩ : ∃ y : StreamConn,
      x.streamExecuteClose callback ref = y.closed callback ref ∧
      y.modify ref (fun o => { o with closedCalls := o.closedCalls + 1 }) = x.beforeClosed ref := by
    refine ⟨if (x.objs ref).kind == .btRequest then
      { x.modify ref ({ · with isClosing := true }) with strays := x.strays ++ [ref] }
      else x.modify ref ({ · with isClosing := true }), ?_, ?_⟩
    · simp only [streamExecuteClose, h, Bool.false_or, modify_objs_self, Bool.false_eq_true,
        if_false]
      rfl
    · cases hk : (x.objs ref).kind <;>
        simp [StreamConn.modify, StreamConn.beforeClosed, hk, Function.update_idem]
  simp only [hexec, closed, hbefore, afterClosed]
  cases hk : ((callback (x.beforeClosed ref)).objs ref).kind with
  | stream => simp [StreamConn.modify, hobj]
  | btRequest =>
    rw [if_pos rfl]
    exact close_of_closing (by rw [hobj])

@[simp] theorem afterClosed_count : (x.afterClosed ref).count = x.count := by
  unfold afterClosed
  split_ifs <;> rfl

@[simp] theorem afterClosed_calls : (x.afterClosed ref).calls = x.calls := by
  unfold afterClosed
  split_ifs <;> rfl

@[simp] theorem afterClosed_strays : (x.afterClosed ref).strays = x.strays := by
  unfold afterClosed
  split_ifs <;> rfl

@[simp] theorem afterClosed_ended : (x.afterClosed ref).ended = x.ended := by
  unfold afterClosed
  split_ifs <;> rfl

theorem afterClosed_sameStored : SameStored x (x.afterClosed ref) := by
  unfold afterClosed
  split_ifs <;> exact ⟨rfl, rfl, rfl⟩

theorem afterClosed_sameSides : SameSides x (x.afterClosed ref) := by
  unfold afterClosed
  split_ifs <;> exact .of_eq rfl rfl rfl

theorem afterClosed_objs_of_ne (h : r ≠ ref) : (x.afterClosed ref).objs r = x.objs r := by
  unfold afterClosed
  split_ifs
  · rfl
  · exact modify_objs_of_ne h

theorem afterClosed_objs_self : (x.afterClosed ref).objs ref =
    { x.objs ref with
      conn := if (x.objs ref).kind = .btRequest then (x.objs ref).conn else false } := by
  unfold afterClosed
  split_ifs
  · rfl
  · exact modify_objs_self

theorem Wf.afterClosed (h : x.Wf) : (x.afterClosed ref).Wf := by
  unfold StreamConn.afterClosed
  split_ifs
  · exact h
  · exact h.modify ref _

/-- The object after `stream_execute_close`. -/
def objClosed (o : StreamObj) : StreamObj :=
  if o.isClosing then o else
    { o with
      isClosing := true
      closedCalls := o.closedCalls + 1
      conn := if o.kind = .btRequest then o.conn else false }

/-- What `stream_execute_close` of `ref` does, from `x` to `y`. -/
structure Closes (x y : StreamConn) (ref : Nat) : Prop extends Grows x y where
  self : y.objs ref = objClosed (x.objs ref)
  old : ∀ r < x.count, r ≠ ref → Kept (x.objs r) (y.objs r)
  strays : ∀ r < x.count, r ∈ y.strays ↔ r ∈ x.strays ∨
    r = ref ∧ ((x.objs ref).isClosing = true ∨ (x.objs ref).kind = .btRequest)
  silent : (x.objs ref).isClosing = true → y = { x with strays := x.strays ++ [ref] }

/-- A stream that is closing already only becomes a stray. -/
theorem closes_of_closing (hx : x.Wf) (hr : ref < x.count)
    (hclosing : (x.objs ref).isClosing = true) :
    Closes x { x with strays := x.strays ++ [ref] } ref where
  ended := rfl
  count := le_rfl
  stored _ _ := .rfl
  refused _ := ⟨⟨rfl, rfl, rfl⟩, fun _ hle hlt => absurd hlt (Nat.not_lt.mpr hle)⟩
  live _ _ hle hlt := absurd hlt (Nat.not_lt.mpr hle)
  streams _ h := h
  queue := List.prefix_rfl
  sides := .of_eq rfl rfl rfl
  wf := hx.congr ⟨rfl, rfl, rfl⟩ rfl rfl le_rfl fun r hmem => by
    rcases List.mem_append.mp hmem with hmem | hmem
    · exact hx.strays r hmem
    · exact List.mem_singleton.mp hmem ▸ hr
  calls := ⟨[], by simp, by simp⟩
  self := by simp [objClosed, hclosing]
  old _ _ _ := .inl rfl
  strays r _ := by simp [hclosing]
  silent _ := rfl

theorem Frame.closes (h : Frame (x.beforeClosed ref) z) (hr : ref < x.count)
    (hclosing : (x.objs ref).isClosing = false) : Closes x (z.afterClosed ref) ref where
  ended := afterClosed_ended.trans h.ended
  count := h.count.trans afterClosed_count.ge
  stored r hlt := by
    rw [afterClosed_sameStored.stored, h.stored r hlt]
    rfl
  refused hended := by
    obtain ⟨hsame, hnew⟩ := h.refused hended
    refine ⟨SameStored.trans ⟨hsame.streams, hsame.queue, hsame.pending⟩ afterClosed_sameStored,
      fun r hle hlt => ?_⟩
    have hne : r ≠ ref := by omega
    have hr := hnew r hle (afterClosed_count ▸ hlt)
    exact ⟨by rw [afterClosed_objs_of_ne hne]; exact hr.closing,
      by rw [afterClosed_objs_of_ne hne]; exact hr.calls,
      by rw [afterClosed_objs_of_ne hne, afterClosed_strays]; exact hr.conn⟩
  live hended r hle hlt := by
    have hne : r ≠ ref := by omega
    have hr := h.live hended r hle (afterClosed_count ▸ hlt)
    exact ⟨by rw [afterClosed_sameStored.stored]; exact hr.stored,
      by rw [afterClosed_objs_of_ne hne]; exact hr.calls,
      by rw [afterClosed_objs_of_ne hne]; exact hr.conn,
      by rw [afterClosed_objs_of_ne hne]; exact hr.closing,
      by rw [afterClosed_strays]; exact hr.strays⟩
  streams entry hmem := by
    rw [afterClosed_sameStored.streams]
    exact h.streams entry hmem
  queue := by
    rw [afterClosed_sameStored.queue]
    exact h.queue
  sides := SameSides.trans ⟨h.sides.streams, h.sides.next, h.sides.incoming⟩ afterClosed_sameSides
  wf := h.wf.afterClosed
  calls := by
    rw [afterClosed_calls]
    exact h.calls
  self := by
    have hobj := (h.old ref hr).eq (by rw [beforeClosed_objs_self])
    rw [beforeClosed_objs_self] at hobj
    rw [afterClosed_objs_self, hobj]
    simp [objClosed, hclosing]
  old r hlt hne := by
    rw [afterClosed_objs_of_ne hne, ← beforeClosed_objs_of_ne hne]
    exact h.old r hlt
  strays r hlt := by
    rw [afterClosed_strays, h.strays r hlt, mem_strays_beforeClosed]
    simp [hclosing, and_comm]
  silent hc := absurd (hc.symm.trans hclosing) (by simp)

theorem streamExecuteClose_closes {callback : StreamConn → StreamConn}
    (hcb : ∀ x : StreamConn, x.Wf → Frame x (callback x)) (hx : x.Wf) (hr : ref < x.count) :
    Closes x (x.streamExecuteClose callback ref) ref := by
  cases hclosing : (x.objs ref).isClosing with
  | true =>
    rw [streamExecuteClose_of_closing callback hclosing]
    exact closes_of_closing hx hr hclosing
  | false =>
    have hf := hcb _ (hx.beforeClosed hr)
    rw [streamExecuteClose_eq hf hr hclosing]
    exact hf.closes hr hclosing

/-- Closing a stream that was just made, on a connection that has ended. -/
theorem Closes.refuse_frame {kind : StreamKind} {onClose : Script} (hx : x.Wf)
    (hended : x.ended = true)
    (h : Closes { x with
      count := x.count + 1
      objs := Function.update x.objs x.count { kind := kind, onClose := onClose } } y x.count) :
    Frame x y where
  ended := h.ended
  count := (Nat.le_succ _).trans h.count
  stored r hr := h.stored r (hr.trans (Nat.lt_succ_self _))
  refused _ := by
    obtain ⟨hsame, hnew⟩ := h.refused hended
    refine ⟨⟨hsame.streams, hsame.queue, hsame.pending⟩, fun r hle hr => ?_⟩
    rcases Nat.eq_or_lt_of_le hle with rfl | hgt
    · have hnot : x.count ∉ x.strays := fun hmem => (hx.strays _ hmem).false
      have hself : y.objs x.count = objClosed { kind := kind, onClose := onClose } := by
        rw [h.self]
        exact congrArg _ (Function.update_self ..)
      refine ⟨by rw [hself]; rfl, by rw [hself]; rfl, ?_⟩
      rw [hself, h.strays x.count (Nat.lt_succ_self _)]
      cases kind <;> simp [objClosed, hnot]
    · exact hnew r hgt hr
  live hnot := absurd (hnot.symm.trans hended) (by simp)
  streams := h.streams
  queue := h.queue
  sides := ⟨h.sides.streams, h.sides.next, h.sides.incoming⟩
  wf := h.wf
  calls := h.calls
  old r hr := by
    have hold := h.old r (hr.trans (Nat.lt_succ_self _)) hr.ne
    exact (Function.update_of_ne hr.ne _ x.objs) ▸ hold
  strays r hr := by
    rw [h.strays r (hr.trans (Nat.lt_succ_self _))]
    simp [hr.ne]

/-! ## Making streams -/

/-- A new object `ref` was put in a container. -/
structure Placed (x y : StreamConn) (obj : StreamObj) : Prop where
  objs : y.objs = Function.update x.objs x.count obj
  count : y.count = x.count + 1
  ended : y.ended = x.ended
  strays : y.strays = x.strays
  calls : y.calls = x.calls
  stored : y.stored.Perm (x.count :: x.stored)
  streams : ∀ entry ∈ x.streams, entry ∈ y.streams
  queue : x.streamQueue <+: y.streamQueue
  sides : SameSides x y
  keys : y.KeysFree

theorem Placed.mem_stored {obj : StreamObj} (h : Placed x y obj) :
    r ∈ y.stored ↔ r = x.count ∨ r ∈ x.stored := by
  rw [h.stored.mem_iff, List.mem_cons]

theorem Placed.wf {obj : StreamObj} (h : Placed x y obj) (hx : x.Wf) : y.Wf where
  toKeysFree := h.keys
  nodup := by
    rw [h.stored.nodup_iff, List.nodup_cons]
    exact ⟨fun hmem => (hx.lt _ hmem).false, hx.nodup⟩
  lt r hr := by
    rw [h.count]
    rcases h.mem_stored.mp hr with rfl | hr
    · omega
    · exact (hx.lt r hr).trans (Nat.lt_succ_self _)
  strays r hr := by
    rw [h.count]
    exact (hx.strays r (h.strays ▸ hr)).trans (Nat.lt_succ_self _)

theorem Placed.frame {kind : StreamKind} {onClose : Script}
    (h : Placed x y { kind := kind, onClose := onClose }) (hx : x.Wf) (hended : x.ended = false) :
    Frame x y where
  ended := h.ended
  count := by rw [h.count]; omega
  old r hr := by
    rw [h.objs, Function.update_of_ne hr.ne]
    exact .inl rfl
  stored r hr := by simp [h.mem_stored, hr.ne]
  strays r hr := by rw [h.strays]
  refused he := by rw [hended] at he; cases he
  live _ r hle hlt := by
    obtain rfl : r = x.count := by rw [h.count] at hlt; omega
    have hobj : y.objs x.count = { kind := kind, onClose := onClose } := by
      rw [h.objs, Function.update_self]
    refine ⟨h.mem_stored.mpr (.inl rfl), by rw [hobj], by rw [hobj], by simp [hobj], ?_⟩
    rw [h.strays]
    exact fun hmem => (hx.strays _ hmem).false
  streams := h.streams
  queue := h.queue
  sides := h.sides
  wf := h.wf hx
  calls := ⟨[], by simp [h.calls], by simp⟩

theorem Frame.call {call : OpenCall} (h : Frame x y)
    (hcall : (x.ended = true → call.closed = true ∧ call.stored = false) ∧
      (x.ended = false → call.stored = true)) :
    Frame x { y with calls := y.calls ++ [call] } where
  ended := h.ended
  count := h.count
  old := h.old
  stored := h.stored
  strays := h.strays
  refused he := by
    obtain ⟨hsame, hnew⟩ := h.refused he
    refine ⟨⟨hsame.streams, hsame.queue, hsame.pending⟩, fun r hle hlt => ?_⟩
    have hr := hnew r hle hlt
    exact ⟨hr.closing, hr.calls, hr.conn⟩
  live he r hle hlt := by
    have hr := h.live he r hle hlt
    exact ⟨hr.stored, hr.calls, hr.conn, hr.closing, hr.strays⟩
  streams := h.streams
  queue := h.queue
  sides := ⟨h.sides.streams, h.sides.next, h.sides.incoming⟩
  wf := h.wf.congr ⟨rfl, rfl, rfl⟩ rfl rfl le_rfl h.wf.strays
  calls := by
    obtain ⟨made, heq, hmade⟩ := h.calls
    refine ⟨made ++ [call], by simp [heq], fun c hc => ?_⟩
    rcases List.mem_append.mp hc with hc | hc
    · exact hmade c hc
    · exact List.mem_singleton.mp hc ▸ hcall

/-- What one call of `open_stream` or `queue_incoming_stream` does. -/
structure Makes (x y : StreamConn) (onClose : Script) : Prop extends Frame x y where
  only : ∀ r ∈ y.stored, x.count ≤ r → r = x.count ∧ (y.objs r).onClose = onClose
  call : x.calls.length < y.calls.length

theorem newStream_makes {callback : StreamConn → StreamConn}
    (hcb : ∀ x : StreamConn, x.Wf → Frame x (callback x)) (hx : x.Wf) (kind : StreamKind)
    (onClose : Script) (place : Nat → StreamConn → StreamConn)
    (hplace : Placed x (place x.count { x with
      count := x.count + 1
      objs := Function.update x.objs x.count { kind := kind, onClose := onClose } })
      { kind := kind, onClose := onClose }) :
    Makes x (x.newStream callback kind onClose place) onClose := by
  have hended₁ : ∀ c o, ended { x with count := c, objs := o } = x.ended := fun _ _ => rfl
  unfold newStream
  simp only [hended₁]
  cases hended : x.ended with
  | true =>
    have hx₁ : Wf { x with
        count := x.count + 1
        objs := Function.update x.objs x.count { kind := kind, onClose := onClose } } :=
      hx.congr ⟨rfl, rfl, rfl⟩ rfl rfl (Nat.le_succ _)
        fun r hr => (hx.strays r hr).trans (Nat.lt_succ_self _)
    have hcloses := streamExecuteClose_closes hcb hx₁ (Nat.lt_succ_self _)
    have hf := hcloses.refuse_frame hx hended
    obtain ⟨hsame, hnew⟩ := hf.refused hended
    have hclosing := (hnew x.count le_rfl hcloses.count).closing
    have hlt : ∀ r ∈ stored _, r < x.count := fun r hr => hx.lt r (hsame.stored ▸ hr)
    refine ⟨hf.call ⟨fun _ => ⟨hclosing, ?_⟩, fun h => absurd (h.symm.trans hended) (by simp)⟩,
      fun r hr hle => absurd (hlt r hr) (Nat.not_lt.mpr hle), ?_⟩
    · exact decide_eq_false fun hmem => (hlt _ hmem).false
    · obtain ⟨calls, heq, -⟩ := hf.calls
      simp only [if_true, heq, List.length_append, List.length_singleton]
      omega
  | false =>
    have hf := hplace.frame hx hended
    simp only [Bool.false_eq_true, if_false]
    refine ⟨hf.call ⟨fun h => absurd (h.symm.trans hended) (by simp), fun _ => ?_⟩,
      fun r hr hle => ?_, ?_⟩
    · exact decide_eq_true (hplace.mem_stored.mpr (.inl rfl))
    · rcases hplace.mem_stored.mp hr with rfl | hr
      · exact ⟨rfl, by rw [hplace.objs, Function.update_self]⟩
      · exact absurd (hx.lt r hr) (Nat.not_lt.mpr hle)
    · simp [hplace.calls]

/-- A new entry of `_streams`. -/
theorem KeysFree.insert_streams {id : Int} (h : x.KeysFree)
    (hid : ∀ entry ∈ x.streams, entry.1 ≠ id) (hstreams : y.streams = OrderedMap.insert id ref x.streams)
    (hnext : y.nextStreamId = x.nextStreamId ∧ id % 4 ≠ x.nextStreamId % 4 ∨
      y.nextStreamId = x.nextStreamId + 4 ∧ id = x.nextStreamId)
    (hqueue : y.streamQueue.Sublist x.streamQueue)
    (hinc : y.nextIncomingStreamId = x.nextIncomingStreamId) : y.KeysFree where
  streams := by
    rw [hstreams]
    exact OrderedMap.nodup_insert hid h.streams
  local_ entry hmem hmod := by
    rcases OrderedMap.mem_of_mem_insert (hstreams ▸ hmem) with rfl | hmem
    · dsimp only at hmod ⊢
      omega
    · have := h.local_ entry hmem
      omega
  queued := h.queued.sublist (hqueue.map _)
  queue entry hmem := hinc ▸ h.queue entry (hqueue.subset hmem)
  remote entry hmem := hinc ▸ h.remote entry (hqueue.subset hmem)
  sides := by
    have := h.sides
    omega

/-- The next id of the remote is taken. -/
theorem KeysFree.take_incoming (h : x.KeysFree) (hstreams : y.streams = x.streams)
    (hnext : y.nextStreamId = x.nextStreamId)
    (hinc : y.nextIncomingStreamId = x.nextIncomingStreamId + 4)
    (hqueued : (y.streamQueue.map Prod.fst).Nodup)
    (hqueue : ∀ entry ∈ y.streamQueue,
      entry ∈ x.streamQueue ∨ entry.1 = x.nextIncomingStreamId) : y.KeysFree where
  streams := hstreams ▸ h.streams
  queued := hqueued
  local_ := by
    rw [hstreams, hnext]
    exact h.local_
  queue entry hmem := by
    rcases hqueue entry hmem with hmem | heq
    · have := h.queue entry hmem
      omega
    · omega
  remote entry hmem := by
    rcases hqueue entry hmem with hmem | heq
    · have := h.remote entry hmem
      omega
    · omega
  sides := by
    have := h.sides
    omega

theorem openStream_makes {callback : StreamConn → StreamConn}
    (hcb : ∀ x : StreamConn, x.Wf → Frame x (callback x)) (hx : x.Wf) (kind : StreamKind)
    (onClose : Script) : Makes x (x.openStream callback kind onClose) onClose := by
  refine newStream_makes hcb hx kind onClose _ ?_
  have hfree : ∀ entry ∈ x.streams, entry.1 ≠ x.nextStreamId := fun entry hmem heq =>
    (hx.local_ entry hmem (by rw [heq])).ne heq
  dsimp only
  split_ifs
  · refine ⟨rfl, rfl, rfl, rfl, rfl, ?_, fun _ h => h, List.prefix_rfl, .of_eq rfl rfl rfl, ?_⟩
    · simp only [stored]
      grind
    · exact hx.toKeysFree.congr rfl rfl rfl rfl
  · refine ⟨rfl, rfl, rfl, rfl, rfl, ?_, ?_, List.prefix_rfl, ⟨?_, Int.add_emod_right _ 4, rfl⟩, ?_⟩
    · exact ((OrderedMap.insert_perm hfree).map Prod.snd).append_right _ |>.append_right _
    · exact fun entry hmem => (OrderedMap.insert_perm hfree).mem_iff.mpr (by simp [hmem])
    · intro entry hmem
      rcases OrderedMap.mem_of_mem_insert hmem with rfl | hmem
      · exact .inr rfl
      · exact .inl hmem
    · exact hx.insert_streams hfree rfl (.inr ⟨rfl, rfl⟩) (.refl _) rfl

theorem queueIncomingStream_makes {callback : StreamConn → StreamConn}
    (hcb : ∀ x : StreamConn, x.Wf → Frame x (callback x)) (hx : x.Wf) (kind : StreamKind)
    (onClose : Script) : Makes x (x.queueIncomingStream callback kind onClose) onClose := by
  have hx₁ : Wf { x with nextIncomingStreamId := x.nextIncomingStreamId + 4 } :=
    ⟨hx.take_incoming rfl rfl rfl hx.queued fun entry h => .inl h, hx.nodup, hx.lt, hx.strays⟩
  have hqueue : OrderedMap.insert x.nextIncomingStreamId x.count x.streamQueue =
      x.streamQueue ++ [(x.nextIncomingStreamId, x.count)] := OrderedMap.insert_last hx.queue
  have hf := newStream_makes hcb hx₁ kind onClose
    (fun ref y => { y with
      streamQueue := OrderedMap.insert x.nextIncomingStreamId ref y.streamQueue }) <| by
    refine ⟨rfl, rfl, rfl, rfl, rfl, ?_, fun _ h => h, ?_, .of_eq rfl rfl rfl, ?_⟩
    · simp only [stored, hqueue]
      grind
    · exact hqueue ▸ List.prefix_append ..
    · refine hx.take_incoming rfl rfl rfl ?_ fun entry hmem => ?_
      · exact OrderedMap.nodup_insert (fun entry h => (hx.queue entry h).ne) hx.queued
      · rcases OrderedMap.mem_of_mem_insert hmem with rfl | hmem
        · exact .inr rfl
        · exact .inl hmem
  have hgrows : Grows x (x.queueIncomingStream callback kind onClose) :=
    ⟨hf.ended, hf.count, hf.stored,
      fun h => ⟨⟨(hf.refused h).1.streams, (hf.refused h).1.queue, (hf.refused h).1.pending⟩,
        (hf.refused h).2⟩, hf.live, hf.streams, hf.queue,
      ⟨hf.sides.streams, hf.sides.next, hf.sides.incoming.trans (Int.add_emod_right _ 4)⟩,
      hf.wf, hf.calls⟩
  exact ⟨⟨hgrows, hf.old, hf.strays⟩, hf.only, hf.call⟩

/-- Whatever a script does is within the frame. -/
theorem run_frame (hx : x.Wf) (s : Script) : Frame x (run s x) := by
  induction s generalizing x with
  | done => exact .refl hx
  | openStream kind onClose next ihClose ihNext =>
    have h := openStream_makes (fun _ h => ihClose h) hx kind onClose
    exact h.toFrame.trans (ihNext h.wf)
  | queueIncomingStream kind onClose next ihClose ihNext =>
    have h := queueIncomingStream_makes (fun _ h => ihClose h) hx kind onClose
    exact h.toFrame.trans (ihNext h.wf)
  | closeStream ref next ih =>
    have h : Frame x (if ref < x.count then x.close ref else x) := by
      split_ifs
      · exact close_frame hx ref
      · exact .refl hx
    exact h.trans (ih h.wf)

theorem closeStored_closes (hx : x.Wf) (hr : ref < x.count) : Closes x (x.closeStored ref) ref :=
  streamExecuteClose_closes (fun _ h => run_frame h _) hx hr

end StreamConn

end Libquic
