import Libquic.Request.Message
import Libquic.Stream.Ledger

/-!
# Request streams: withdrawing what timed out

A request stream on top of the send side of `Stream.Ledger`. Every frame is queued with a
keep-alive of its own, and a request that may be withdrawn keeps a weak reference to it. When the
timer answers such a request, its frame is taken out of the send buffer if no byte of it has been
written. The machine lets any outstanding request expire at any point, which includes every
order in which `check_timeouts` answers them.
-/
namespace Libquic

open Lib

/-! ## Frames sent by watermark callbacks -/

/-- What a watermark callback sends: frames nobody waits for, in order, each with what the
callback that it may trigger sends in turn. -/
inductive FrameSends where
  | done
  | send (x : Send) (inner next : FrameSends)
  deriving DecidableEq, Repr

/-- Give each frame a keep-alive of its own, from `k` on. A frame that is too long throws. -/
def FrameSends.number (maxReqLen : Nat) : FrameSends → Nat → Reaction × Nat
  | .done, k => (.done, k)
  | .send x inner next, k =>
    let first := inner.number maxReqLen (k + 1)
    let second := next.number maxReqLen first.2
    match x.frame maxReqLen with
    | .ok data => (.send data (some k) first.1 second.1, second.2)
    | .error _ => (second.1, second.2)

/-- Whole frames with keep-alives of their own, from `lo` up to `hi`. -/
structure Numbered (maxReqLen lo hi : Nat) (added : List Buffer) : Prop where
  frame : ∀ b ∈ added, ∃ x : Send, x.frame maxReqLen = .ok b.data
  range : ∀ b ∈ added, ∃ k, lo ≤ k ∧ k < hi ∧ b.keepAlive = some k
  nodup : (added.map Buffer.keepAlive).Nodup

section Numbered

variable {maxReqLen lo mid hi : Nat} {xs ys : List Buffer}

theorem Numbered.nil : Numbered maxReqLen lo hi [] where
  frame := by simp
  range := by simp
  nodup := .nil

theorem Numbered.widen {lo' hi' : Nat} (h : Numbered maxReqLen lo hi xs) (hlo : lo' ≤ lo)
    (hhi : hi ≤ hi') : Numbered maxReqLen lo' hi' xs :=
  { h with
    range := fun b hb => by
      obtain ⟨k, hk, hk', heq⟩ := h.range b hb
      exact ⟨k, hlo.trans hk, by omega, heq⟩ }

theorem Numbered.append (hx : Numbered maxReqLen lo mid xs) (hy : Numbered maxReqLen mid hi ys)
    (hlo : lo ≤ mid) (hhi : mid ≤ hi) : Numbered maxReqLen lo hi (xs ++ ys) where
  frame b hb := (List.mem_append.mp hb).elim (hx.frame b) (hy.frame b)
  range b hb := (List.mem_append.mp hb).elim ((hx.widen le_rfl hhi).range b)
    ((hy.widen hlo le_rfl).range b)
  nodup := by
    rw [List.map_append]
    refine List.nodup_append.mpr ⟨hx.nodup, hy.nodup, ?_⟩
    intro a ha c hc heq
    obtain ⟨b, hb, rfl⟩ := List.mem_map.mp ha
    obtain ⟨d, hd, rfl⟩ := List.mem_map.mp hc
    obtain ⟨k, _, hk, hbk⟩ := hx.range b hb
    obtain ⟨j, hj, _, hdj⟩ := hy.range d hd
    have hsame : k = j := by simpa [hbk, hdj] using heq
    omega

theorem Numbered.single {x : Send} {data : Bytes} {k : Nat} (h : x.frame maxReqLen = .ok data) :
    Numbered maxReqLen k (k + 1) [⟨data, some k⟩] where
  frame b hb := ⟨x, by rw [List.mem_singleton.mp hb]; exact h⟩
  range b hb := ⟨k, le_rfl, Nat.lt_succ_self k, by rw [List.mem_singleton.mp hb]⟩
  nodup := by simp

end Numbered

/-- A callback that only queues such frames. -/
def Appends (maxReqLen lo hi : Nat) (callback : Stream → Stream) : Prop :=
  ∀ s, ∃ added, (callback s).accepted = s.accepted ++ added ∧ Numbered maxReqLen lo hi added

section Appends

variable {maxReqLen lo hi : Nat} {callback : Stream → Stream}

theorem Appends.checkWatermark (h : Appends maxReqLen lo hi callback) :
    Appends maxReqLen lo hi (Stream.checkWatermark callback) := by
  intro s
  have hidle : ∃ added, s.accepted = s.accepted ++ added ∧ Numbered maxReqLen lo hi added :=
    ⟨[], by simp, .nil⟩
  unfold Stream.checkWatermark
  split
  · exact hidle
  · split_ifs
    · exact h { s with watermarkAlarm := false }
    · exact hidle
    · exact h { s with watermarkAlarm := true }
    · exact hidle

/-- What a send adds: nothing if the data is dropped, else the frame and what a callback sent. -/
theorem sendImpl_accepted (h : Appends maxReqLen lo hi callback) (connOpen : Bool) (s : Stream)
    (b : Buffer) :
    (Stream.sendImpl connOpen callback s b).accepted = s.accepted ∨
      ∃ added, (Stream.sendImpl connOpen callback s b).accepted = s.accepted ++ b :: added ∧
        Numbered maxReqLen lo hi added := by
  unfold Stream.sendImpl
  split_ifs
  · right
    obtain ⟨added, hadded, hnumbered⟩ := h.checkWatermark
      { s with
        accepted := s.accepted ++ [b], unsentSize := s.unsentSize + b.size
        userBuffers := s.userBuffers ++ [b] }
    refine ⟨added, ?_, hnumbered⟩
    rw [Stream.appendBuffer, hadded, List.append_assoc]
    rfl
  · exact .inl rfl

end Appends

theorem number_le (maxReqLen : Nat) (r : FrameSends) (k : Nat) : k ≤ (r.number maxReqLen k).2 := by
  induction r generalizing k with
  | done => exact le_rfl
  | send x inner next ihInner ihNext =>
    have hinner := ihInner (k + 1)
    have hnext := ihNext (inner.number maxReqLen (k + 1)).2
    simp only [FrameSends.number]
    split
    · simp only
      omega
    · simp only
      omega

theorem react_number (connOpen : Bool) (maxReqLen : Nat) (r : FrameSends) (k : Nat) :
    Appends maxReqLen k (r.number maxReqLen k).2
      (Stream.react connOpen (r.number maxReqLen k).1) := by
  induction r generalizing k with
  | done => exact fun s => ⟨[], by simp [FrameSends.number, Stream.react], .nil⟩
  | send x inner next ihInner ihNext =>
    intro s
    have hle := number_le maxReqLen inner (k + 1)
    have hle' := number_le maxReqLen next (inner.number maxReqLen (k + 1)).2
    cases hframe : x.frame maxReqLen with
    | error what =>
      obtain ⟨added, hadded, hnumbered⟩ := ihNext (inner.number maxReqLen (k + 1)).2 s
      simp only [FrameSends.number, hframe]
      exact ⟨added, hadded, hnumbered.widen (by omega) le_rfl⟩
    | ok data =>
      simp only [FrameSends.number, hframe, Stream.react]
      obtain ⟨ys, hys, hnext⟩ := ihNext (inner.number maxReqLen (k + 1)).2
        (Stream.sendImpl connOpen
          (Stream.react connOpen (inner.number maxReqLen (k + 1)).1) s ⟨data, some k⟩)
      rcases sendImpl_accepted (ihInner (k + 1)) connOpen s ⟨data, some k⟩ with
        hdropped | ⟨xs, hxs, hinner⟩
      · exact ⟨ys, by rw [hys, hdropped], hnext.widen (by omega) le_rfl⟩
      · have hfirst := (Numbered.single hframe).append hinner (by omega) hle
        exact ⟨⟨data, some k⟩ :: xs ++ ys, by rw [hys, hxs]; simp,
          hfirst.append hnext (by omega) hle'⟩

/-! ## The machine -/

/-- A request waiting for its answer. `queued` is the weak reference to its frame, which is only
kept if the request is to be withdrawn on timeout. -/
structure QueuedRequest where
  id : Nat
  queued : Option Nat
  deriving DecidableEq, Repr

structure RequestSend where
  side : SendState
  nextKeepAlive : Nat := 0
  sentReqs : List QueuedRequest := []
  /-- The frames of requests, not to be sent after a timeout, that the timer has answered before
  any of their bytes was written. A history variable: nothing reads it. -/
  told : List Nat := []
  deriving DecidableEq, Repr

namespace RequestSend

/-- No written byte is of the frame. -/
def Unwritten (s : RequestSend) (k : Nat) : Prop :=
  ∀ b ∈ s.side.ledger.live.take
    (Ledger.touched s.side.ledger.consumed.length s.side.ledger.live), b.keepAlive ≠ some k

instance (s : RequestSend) (k : Nat) : Decidable (s.Unwritten k) :=
  inferInstanceAs (Decidable (∀ b ∈ _, _))

/-- The weak reference is alive as long as the stream holds the buffer. -/
def lock (s : RequestSend) (k : Nat) : Bool :=
  s.side.stream.userBuffers.any (·.keepAlive = some k)

inductive Op where
  /-- A command or a response. Only a command can need a response. -/
  | queue (x : Send) (needsResponse withdrawOnTimeout : Bool) (sends : FrameSends)
  | write (offer bytes : Nat) (sends : FrameSends)
  | acknowledge (bytes : Nat)
  /-- The turn of `check_timeouts` for one expired request. -/
  | timeOut (q : QueuedRequest) (sends : FrameSends)
  /-- A reply, which takes the request out of `sent_reqs`. -/
  | reply (q : QueuedRequest)
  deriving DecidableEq, Repr

/-- What the caller owes: see `SendState.Enabled`; only outstanding requests expire. -/
def Enabled (s : RequestSend) : Op → Prop
  | .queue x needsResponse _ _ => match x with
    | .command .. => True
    | .response .. => needsResponse = false
  | .write offer bytes _ => bytes ≤ s.side.offered offer
  | .acknowledge bytes => bytes ≤ s.side.stream.unackedSize
  | .timeOut q _ => q ∈ s.sentReqs
  | .reply q => q ∈ s.sentReqs

/-- Run an operation of the send side, with what a watermark callback sends meanwhile. -/
def onSide (maxReqLen : Nat) (connOpen : Bool) (s : RequestSend) (k : Nat) (sends : FrameSends)
    (op : Reaction → SendOp) : Except Fault RequestSend := do
  let r := sends.number maxReqLen k
  let side ← SendState.step connOpen s.side (op r.1)
  return { s with side := side, nextKeepAlive := r.2 }

/-- The request of a command with a callback, as `sent_reqs` keeps it. -/
def request (needsResponse withdrawOnTimeout : Bool) (k : Nat) : List QueuedRequest :=
  if needsResponse then [⟨k, if withdrawOnTimeout then some k else none⟩] else []

/-- The frame of an expired request is withdrawn before its callback is told. -/
def withdrawQueued (maxReqLen : Nat) (connOpen : Bool) (s : RequestSend) (q : QueuedRequest)
    (sends : FrameSends) : Except Fault RequestSend :=
  match q.queued with
  | none => .ok s
  | some k =>
    let s := if s.Unwritten k then { s with told := s.told ++ [k] } else s
    if s.lock k then s.onSide maxReqLen connOpen s.nextKeepAlive sends (.withdraw (some k))
    else .ok s

def step (maxReqLen : Nat) (connOpen : Bool) (s : RequestSend) : Op → Except Fault RequestSend
  | .queue x needsResponse withdrawOnTimeout sends =>
    match x.frame maxReqLen with
    | .error _ => .ok s
    | .ok data =>
      -- a closing stream drops a request without sending it
      if needsResponse && s.side.stream.isClosing then .ok s
      else
        let k := s.nextKeepAlive
        { s with sentReqs := s.sentReqs ++ request needsResponse withdrawOnTimeout k }.onSide
          maxReqLen connOpen (k + 1) sends (.send ⟨data, some k⟩)
  | .write offer bytes sends =>
    s.onSide maxReqLen connOpen s.nextKeepAlive sends (.write offer bytes)
  | .acknowledge bytes =>
    s.onSide maxReqLen connOpen s.nextKeepAlive .done fun _ => .acknowledge bytes
  | .timeOut q sends =>
    { s with sentReqs := s.sentReqs.erase q }.withdrawQueued maxReqLen connOpen q sends
  | .reply q => .ok { s with sentReqs := s.sentReqs.erase q }

/-- A request stream under any operations, each with whether the connection is open then. -/
def machine (maxReqLen : Nat) : Machine RequestSend (Bool × Op) Fault where
  initial s := s.side.Initial ∧ s.nextKeepAlive = 0 ∧ s.sentReqs = [] ∧ s.told = []
  enabled s op := s.Enabled op.2
  step s op := s.step maxReqLen op.1 op.2

/-! ## What the operations do to the ledger -/

section Ledger

variable {maxReqLen lo hi : Nat} {connOpen : Bool} {x y : SendState} {reaction : Reaction}

/-- Between the two states the buffers were queued and nothing else became of the ledger's. -/
structure Queued (added : List Buffer) (x y : SendState) : Prop where
  accepted : y.stream.accepted = x.stream.accepted ++ added
  live : y.ledger.live = x.ledger.live ++ added
  withdrawn : y.ledger.withdrawn = x.ledger.withdrawn

theorem commit_queued {ledger : Ledger} {s : Stream} {added : List Buffer}
    (h : s.accepted = x.stream.accepted ++ added) (hlive : ledger.live = x.ledger.live)
    (hwithdrawn : ledger.withdrawn = x.ledger.withdrawn) :
    Queued added x (x.commit ledger s) where
  accepted := h
  live := by simp [SendState.commit, Ledger.queue, h, hlive]
  withdrawn := hwithdrawn

theorem send_queued (h : Appends maxReqLen lo hi (Stream.react connOpen reaction)) {b : Buffer}
    (hstep : SendState.step connOpen x (.send b reaction) = .ok y) :
    Queued [] x y ∨ ∃ added, Queued (b :: added) x y ∧ Numbered maxReqLen lo hi added := by
  cases hstep
  rcases sendImpl_accepted h connOpen x.stream b with hdropped | ⟨added, hadded, hnumbered⟩
  · exact .inl (commit_queued (by simpa using hdropped) rfl rfl)
  · exact .inr ⟨added, commit_queued hadded rfl rfl, hnumbered⟩

theorem write_queued (h : Appends maxReqLen lo hi (Stream.react connOpen reaction))
    {offer bytes : Nat} (hstep : SendState.step connOpen x (.write offer bytes reaction) = .ok y) :
    ∃ added, Queued added x y ∧ Numbered maxReqLen lo hi added := by
  obtain ⟨⟨vecs, more⟩, -, hstep⟩ := bind_ok hstep
  obtain ⟨s, hwrote, hstep⟩ := bind_ok hstep
  cases hstep
  obtain ⟨unsent, -, hwrote⟩ := bind_ok hwrote
  obtain ⟨⟨index, offset⟩, -, hwrote⟩ := bind_ok hwrote
  cases hwrote
  obtain ⟨added, hadded, hnumbered⟩ := h.checkWatermark
    { x.stream with
      unackedSize := x.stream.unackedSize + bytes, unsentSize := unsent, notify := false }
  exact ⟨added, commit_queued hadded rfl rfl, hnumbered⟩

theorem acknowledge_queued {bytes : Nat} (h : x.Agrees) (hen : x.Enabled (.acknowledge bytes))
    (hstep : SendState.step connOpen x (.acknowledge bytes) = .ok y) : Queued [] x y := by
  obtain ⟨released, held, hsplit⟩ := h
  obtain ⟨k, left, hok, -⟩ :=
    Stream.acknowledge_spec hsplit.point hsplit.filledBuffers hsplit.unacked hen
  obtain ⟨s, hs, hstep⟩ := bind_ok hstep
  obtain rfl : _ = s := Except.ok.inj (hok.symm.trans hs)
  cases hstep
  exact commit_queued (by simp [Stream.release]) rfl rfl

/-- The live buffers that no written byte touches are those behind the send point. -/
theorem untouched_eq (h : x.Agrees) :
    x.ledger.live.drop (Ledger.touched x.ledger.consumed.length x.ledger.live) =
      x.stream.userBuffers.drop x.stream.firstWhole := by
  obtain ⟨released, held, hsplit⟩ := h
  rw [hsplit.touched, hsplit.drop_firstWhole, hsplit.live, List.drop_append,
    List.drop_of_length_le (Nat.le_add_right ..), Nat.add_sub_cancel_left, List.nil_append]

/-- Either no untouched buffer is of that owner and nothing happens, or the first such buffer
goes over to the withdrawn ones. -/
theorem withdraw_queued (h : Appends maxReqLen lo hi (Stream.react connOpen reaction))
    (hagrees : x.Agrees) {keepAlive : KeepAlive}
    (hstep : SendState.step connOpen x (.withdraw keepAlive reaction) = .ok y) :
    ((∀ b ∈ x.stream.userBuffers.drop x.stream.firstWhole, b.keepAlive ≠ keepAlive) ∧
      Queued [] x y) ∨
    ∃ pre b post added, x.ledger.live = pre ++ b :: post ∧ b.keepAlive = keepAlive ∧
      y.stream.accepted = x.stream.accepted ++ added ∧ y.ledger.live = pre ++ post ++ added ∧
      y.ledger.withdrawn = x.ledger.withdrawn ++ [b] ∧ Numbered maxReqLen lo hi added ∧
      b ∈ x.ledger.live.drop (Ledger.touched x.ledger.consumed.length x.ledger.live) := by
  have huntouched := untouched_eq hagrees
  obtain ⟨released, held, hsplit⟩ := hagrees
  obtain ⟨⟨found, s⟩, hs, hstep⟩ := bind_ok hstep
  cases hstep
  rcases Stream.withdraw_spec (Stream.react connOpen reaction) keepAlive hsplit.point
    hsplit.unsent with ⟨hnone, hok⟩ | ⟨skipped, b, after, hd, hskip, rfl, -, hok⟩
  · cases hok.symm.trans hs
    exact .inl ⟨hnone, commit_queued (by simp) rfl rfl⟩
  · cases hok.symm.trans hs
    obtain ⟨hlive, -⟩ := hsplit.live_around hd
    obtain ⟨added, hadded, hnumbered⟩ := h.checkWatermark
      (x.stream.shrink b.size (x.stream.userBuffers.take x.stream.firstWhole ++ (skipped ++ after)))
    have haccepted : (Stream.checkWatermark (Stream.react connOpen reaction)
        (x.stream.shrink b.size (x.stream.userBuffers.take x.stream.firstWhole ++
          (skipped ++ after)))).accepted = x.stream.accepted ++ added := hadded
    refine .inr ⟨_, b, after, added, hlive, rfl, haccepted, ?_, ?_, hnumbered, ?_⟩
    · simp [SendState.commit, Ledger.queue, haccepted, hsplit.withdraw_eq hd hskip]
    · simp [SendState.commit, Ledger.queue, hsplit.withdraw_eq hd hskip]
    · rw [huntouched, hd]
      simp

end Ledger

/-! ## The invariant -/

structure Inv (maxReqLen : Nat) (s : RequestSend) : Prop where
  agrees : s.side.Agrees
  numbered : Numbered maxReqLen 0 s.nextKeepAlive s.side.stream.accepted
  requests : ∀ q ∈ s.sentReqs, ∀ k ∈ q.queued, k < s.nextKeepAlive
  bound : ∀ k ∈ s.told, k < s.nextKeepAlive
  told : ∀ k ∈ s.told, ∀ b ∈ s.side.ledger.live, b.keepAlive ≠ some k
  kept : ∀ b ∈ s.side.ledger.withdrawn, ∃ k ∈ s.told, b.keepAlive = some k

variable {maxReqLen : Nat} {connOpen : Bool} {s : RequestSend}

/-- New frames have keep-alives that no request has been told about. -/
theorem Inv.grow (h : Inv maxReqLen s) {side : SendState} {added : List Buffer} {hi : Nat}
    (hagrees : side.Agrees) (hq : Queued added s.side side)
    (hnumbered : Numbered maxReqLen s.nextKeepAlive hi added) (hle : s.nextKeepAlive ≤ hi) :
    Inv maxReqLen { s with side := side, nextKeepAlive := hi } where
  agrees := hagrees
  numbered := by
    simp only [hq.accepted]
    exact h.numbered.append hnumbered (Nat.zero_le _) hle
  requests q hmem k hk := (h.requests q hmem k hk).trans_le hle
  bound k hk := (h.bound k hk).trans_le hle
  told k hk b hb := by
    rw [hq.live] at hb
    rcases List.mem_append.mp hb with hb | hb
    · exact h.told k hk b hb
    · obtain ⟨j, hj, -, hbj⟩ := hnumbered.range b hb
      have hlt := h.bound k hk
      rw [hbj]
      intro heq
      cases heq
      omega
  kept b hb := h.kept b (hq.withdrawn ▸ hb)

theorem onSide_ok {k : Nat} (sends : FrameSends) (op : Reaction → SendOp) {side : SendState}
    (h : SendState.step connOpen s.side (op (sends.number maxReqLen k).1) = .ok side) :
    s.onSide maxReqLen connOpen k sends op =
      .ok { s with side := side, nextKeepAlive := (sends.number maxReqLen k).2 } := by
  rw [onSide, h]
  rfl

/-- The send side never fails and keeps agreeing with its ledger. -/
theorem side_step (connOpen : Bool) (h : s.side.Agrees) (op : SendOp) (hen : s.side.Enabled op) :
    ∃ side, SendState.step connOpen s.side op = .ok side ∧ side.Agrees :=
  SendState.agrees_inductive.step s.side (connOpen, op) h hen

theorem Inv.queue (h : Inv maxReqLen s) (x : Send) (needsResponse withdrawOnTimeout : Bool)
    (sends : FrameSends) :
    ∃ t, s.step maxReqLen connOpen (.queue x needsResponse withdrawOnTimeout sends) = .ok t ∧
      Inv maxReqLen t := by
  cases hframe : x.frame maxReqLen with
  | error what => exact ⟨s, by simp [step, hframe], h⟩
  | ok data =>
    by_cases hdrop : (needsResponse && s.side.stream.isClosing) = true
    · exact ⟨s, by simp only [step, hframe, hdrop, if_true], h⟩
    · have hdata : data ≠ [] := by
        rw [(frame_eq_ok hframe).1]
        simp [Bencode.string]
      have hle := number_le maxReqLen sends (s.nextKeepAlive + 1)
      obtain ⟨side, hside, hagrees⟩ := side_step connOpen h.agrees
        (.send ⟨data, some s.nextKeepAlive⟩ (sends.number maxReqLen (s.nextKeepAlive + 1)).1) hdata
      refine ⟨{ s with
        side := side, nextKeepAlive := (sends.number maxReqLen (s.nextKeepAlive + 1)).2
        sentReqs := s.sentReqs ++ request needsResponse withdrawOnTimeout s.nextKeepAlive }, ?_, ?_⟩
      · simp only [step, hframe, hdrop]
        exact onSide_ok sends (.send ⟨data, some s.nextKeepAlive⟩) hside
      · have hgrown : Inv maxReqLen { s with
            side := side, nextKeepAlive := (sends.number maxReqLen (s.nextKeepAlive + 1)).2 } := by
          rcases send_queued (react_number connOpen maxReqLen sends _) hside with
            hq | ⟨added, hq, hnumbered⟩
          · exact h.grow hagrees hq .nil (by omega)
          · exact h.grow hagrees hq ((Numbered.single hframe).append hnumbered (by omega) hle)
              (by omega)
        refine { hgrown with requests := ?_ }
        intro q hmem k hk
        rcases List.mem_append.mp hmem with hmem | hmem
        · exact hgrown.requests q hmem k hk
        · have hself : k = s.nextKeepAlive := by
            unfold request at hmem
            split_ifs at hmem <;> simp_all
          simp only [hself]
          omega

theorem Inv.write (h : Inv maxReqLen s) {offer bytes : Nat} (sends : FrameSends)
    (hen : bytes ≤ s.side.offered offer) :
    ∃ t, s.step maxReqLen connOpen (.write offer bytes sends) = .ok t ∧ Inv maxReqLen t := by
  obtain ⟨side, hside, hagrees⟩ := side_step connOpen h.agrees
    (.write offer bytes (sends.number maxReqLen s.nextKeepAlive).1) hen
  obtain ⟨added, hq, hnumbered⟩ := write_queued (react_number connOpen maxReqLen sends _) hside
  exact ⟨_, onSide_ok sends (.write offer bytes) hside, h.grow hagrees hq hnumbered (number_le ..)⟩

theorem Inv.acknowledge (h : Inv maxReqLen s) {bytes : Nat}
    (hen : bytes ≤ s.side.stream.unackedSize) :
    ∃ t, s.step maxReqLen connOpen (.acknowledge bytes) = .ok t ∧ Inv maxReqLen t := by
  obtain ⟨side, hside, hagrees⟩ := side_step connOpen h.agrees (.acknowledge bytes) hen
  have hq := acknowledge_queued h.agrees hen hside
  exact ⟨_, onSide_ok .done (fun _ => .acknowledge bytes) hside, h.grow hagrees hq .nil le_rfl⟩

/-- A frame that no written byte touches and that is not behind the send point is not live. -/
theorem not_live (h : s.side.Agrees) {k : Nat} (hun : s.Unwritten k)
    (hnone : ∀ b ∈ s.side.stream.userBuffers.drop s.side.stream.firstWhole,
      b.keepAlive ≠ some k) : ∀ b ∈ s.side.ledger.live, b.keepAlive ≠ some k := by
  intro b hb
  rw [← List.take_append_drop
    (Ledger.touched s.side.ledger.consumed.length s.side.ledger.live) s.side.ledger.live] at hb
  rcases List.mem_append.mp hb with hb | hb
  · exact hun b hb
  · exact hnone b (untouched_eq h ▸ hb)

/-- The timer has answered a request; its frame is no longer live if none of it was written. -/
theorem Inv.tell (h : Inv maxReqLen s) {k : Nat} (hk : k < s.nextKeepAlive)
    (hnone : ∀ b ∈ s.side.stream.userBuffers.drop s.side.stream.firstWhole,
      b.keepAlive ≠ some k) :
    Inv maxReqLen (if s.Unwritten k then { s with told := s.told ++ [k] } else s) := by
  split_ifs with hun
  · refine { h with
      bound := ?_
      told := ?_
      kept := fun b hb => ?_ }
    · intro j hj
      rcases List.mem_append.mp hj with hj | hj
      · exact h.bound j hj
      · rw [List.mem_singleton.mp hj]
        exact hk
    · intro j hj
      rcases List.mem_append.mp hj with hj | hj
      · exact h.told j hj
      · rw [List.mem_singleton.mp hj]
        exact not_live h.agrees hun hnone
    · obtain ⟨j, hj, hbj⟩ := h.kept b hb
      exact ⟨j, List.mem_append_left _ hj, hbj⟩
  · exact h

/-- The live buffers have keep-alives of their own. -/
theorem Inv.nodup_live (h : Inv maxReqLen s) :
    (s.side.ledger.live.map Buffer.keepAlive).Nodup := by
  obtain ⟨released, held, hsplit⟩ := h.agrees
  exact h.numbered.nodup.sublist (hsplit.order.map Buffer.keepAlive)

/-- A frame behind the send point is not written. -/
theorem Inv.unwritten (h : Inv maxReqLen s) {b : Buffer} {k : Nat} (hbk : b.keepAlive = some k)
    (hb : b ∈ s.side.ledger.live.drop
      (Ledger.touched s.side.ledger.consumed.length s.side.ledger.live)) : s.Unwritten k := by
  intro c hc hck
  have hnodup := h.nodup_live
  rw [← List.take_append_drop
    (Ledger.touched s.side.ledger.consumed.length s.side.ledger.live) s.side.ledger.live,
    List.map_append] at hnodup
  exact (List.nodup_append.mp hnodup).2.2 _ (List.mem_map.mpr ⟨c, hc, rfl⟩) _
    (List.mem_map.mpr ⟨b, hb, rfl⟩) (hck.trans hbk.symm)

/-- The withdrawn frame was the only one with its keep-alive. -/
theorem Inv.withdraw (h : Inv maxReqLen s) {k hi : Nat} {side : SendState} {b : Buffer}
    {pre post added : List Buffer} (hk : k < s.nextKeepAlive) (hagrees : side.Agrees)
    (hlive : s.side.ledger.live = pre ++ b :: post) (hbk : b.keepAlive = some k)
    (haccepted : side.stream.accepted = s.side.stream.accepted ++ added)
    (hlive' : side.ledger.live = pre ++ post ++ added)
    (hwithdrawn : side.ledger.withdrawn = s.side.ledger.withdrawn ++ [b])
    (hnumbered : Numbered maxReqLen s.nextKeepAlive hi added) (hle : s.nextKeepAlive ≤ hi) :
    Inv maxReqLen { s with side := side, nextKeepAlive := hi, told := s.told ++ [k] } where
  agrees := hagrees
  numbered := by
    simp only [haccepted]
    exact h.numbered.append hnumbered (Nat.zero_le _) hle
  requests q hmem j hj := (h.requests q hmem j hj).trans_le hle
  bound j hj := by
    rcases List.mem_append.mp hj with hj | hj
    · exact (h.bound j hj).trans_le hle
    · rw [List.mem_singleton.mp hj]
      exact hk.trans_le hle
  told j hj c hc := by
    have hnodup := h.nodup_live
    rw [hlive, List.map_append, List.map_cons] at hnodup
    have hother : ∀ d ∈ pre ++ post, d.keepAlive ≠ some k := by
      intro d hd heq
      have hmid := List.nodup_middle.mp hnodup
      refine (List.nodup_cons.mp hmid).1 ?_
      rw [hbk, ← heq, ← List.map_append]
      exact List.mem_map.mpr ⟨d, hd, rfl⟩
    rw [hlive'] at hc
    rcases List.mem_append.mp hc with hc | hc
    · rcases List.mem_append.mp hj with hj | hj
      · refine h.told j hj c ?_
        rw [hlive]
        exact List.mem_append.mpr ((List.mem_append.mp hc).imp_right (List.mem_cons_of_mem _))
      · rw [List.mem_singleton.mp hj]
        exact hother c hc
    · obtain ⟨i, hi, -, hci⟩ := hnumbered.range c hc
      have hlt : j < s.nextKeepAlive := by
        rcases List.mem_append.mp hj with hj | hj
        · exact h.bound j hj
        · rw [List.mem_singleton.mp hj]
          exact hk
      rw [hci]
      intro heq
      cases heq
      omega
  kept c hc := by
    rw [hwithdrawn] at hc
    rcases List.mem_append.mp hc with hc | hc
    · obtain ⟨j, hj, hcj⟩ := h.kept c hc
      exact ⟨j, List.mem_append_left _ hj, hcj⟩
    · exact ⟨k, by simp, by rw [List.mem_singleton.mp hc]; exact hbk⟩

theorem lock_told (s : RequestSend) (k : Nat) (told : List Nat) :
    ({ s with told := told }).lock k = s.lock k := rfl

theorem Inv.timeOut (h : Inv maxReqLen s) (q : QueuedRequest) (sends : FrameSends)
    (hq : ∀ k ∈ q.queued, k < s.nextKeepAlive) :
    ∃ t, s.withdrawQueued maxReqLen connOpen q sends = .ok t ∧ Inv maxReqLen t := by
  unfold withdrawQueued
  cases hqueued : q.queued with
  | none => exact ⟨s, rfl, h⟩
  | some k =>
    have hk : k < s.nextKeepAlive := hq k (by simp [hqueued])
    have hle := number_le maxReqLen sends s.nextKeepAlive
    by_cases hlock : s.lock k = true
    · obtain ⟨side, hside, hagrees⟩ := side_step connOpen h.agrees
        (.withdraw (some k) (sends.number maxReqLen s.nextKeepAlive).1) trivial
      rcases withdraw_queued (react_number connOpen maxReqLen sends _) h.agrees hside with
        ⟨hnone, hqueue⟩ | ⟨pre, b, post, added, hlive, hbk, haccepted, hlive', hwithdrawn,
          hnumbered, hdrop⟩
      · have htell := h.tell hk hnone
        by_cases hun : s.Unwritten k
        · rw [if_pos hun] at htell
          refine ⟨_, ?_, htell.grow hagrees hqueue .nil hle⟩
          simp only [if_pos hun, lock_told, hlock, if_true]
          exact onSide_ok sends (.withdraw (some k)) hside
        · refine ⟨_, ?_, h.grow hagrees hqueue .nil hle⟩
          simp only [if_neg hun, hlock, if_true]
          exact onSide_ok sends (.withdraw (some k)) hside
      · have hun := h.unwritten hbk hdrop
        refine ⟨_, ?_, h.withdraw hk hagrees hlive hbk haccepted hlive' hwithdrawn hnumbered hle⟩
        simp only [if_pos hun, lock_told, hlock, if_true]
        exact onSide_ok sends (.withdraw (some k)) hside
    · -- the stream does not hold the frame any more, or never did
      have hnone : ∀ b ∈ s.side.stream.userBuffers.drop s.side.stream.firstWhole,
          b.keepAlive ≠ some k := by
        intro b hb heq
        exact hlock (List.any_eq_true.mpr ⟨b, List.mem_of_mem_drop hb, by simpa using heq⟩)
      refine ⟨_, ?_, h.tell hk hnone⟩
      by_cases hun : s.Unwritten k
      · simp only [if_pos hun, lock_told, hlock]
        rfl
      · simp only [if_neg hun, hlock]
        rfl

theorem machine_inductive (maxReqLen : Nat) : (machine maxReqLen).Inductive (Inv maxReqLen) where
  initial := by
    rintro s ⟨hside, hnext, hreqs, htold⟩
    obtain ⟨hledger, -, haccepted, -⟩ := id hside
    exact ⟨hside.agrees, haccepted ▸ .nil, by simp [hreqs], by simp [htold], by simp [htold],
      by simp [hledger]⟩
  step := by
    rintro s ⟨connOpen, op⟩ h hen
    cases op with
    | queue x needsResponse withdrawOnTimeout sends =>
      exact h.queue x needsResponse withdrawOnTimeout sends
    | write offer bytes sends => exact h.write sends hen
    | acknowledge bytes => exact h.acknowledge hen
    | timeOut q sends =>
      have herased : Inv maxReqLen { s with sentReqs := s.sentReqs.erase q } :=
        { h with requests := fun r hr => h.requests r (List.mem_of_mem_erase hr) }
      exact herased.timeOut q sends (h.requests q hen)
    | reply q =>
      exact ⟨_, rfl, { h with requests := fun r hr => h.requests r (List.mem_of_mem_erase hr) }⟩

/-! ## What is written and what is withdrawn -/

theorem onSide_told {k : Nat} {sends : FrameSends} {op : Reaction → SendOp} {t : RequestSend}
    (h : s.onSide maxReqLen connOpen k sends op = .ok t) : t.told = s.told := by
  obtain ⟨side, -, h⟩ := bind_ok h
  cases h
  rfl

/-- The timer's answer is recorded if it came before any byte of the frame was written. -/
theorem withdrawQueued_told {q : QueuedRequest} {sends : FrameSends} {t : RequestSend}
    (h : s.withdrawQueued maxReqLen connOpen q sends = .ok t) :
    s.told ⊆ t.told ∧ ∀ k ∈ q.queued, s.Unwritten k → k ∈ t.told := by
  unfold withdrawQueued at h
  cases hqueued : q.queued with
  | none =>
    rw [hqueued] at h
    cases h
    exact ⟨List.Subset.refl _, by simp⟩
  | some k =>
    rw [hqueued] at h
    have htold : t.told = (if s.Unwritten k then { s with told := s.told ++ [k] } else s).told := by
      simp only at h
      split_ifs at h ⊢
      · exact onSide_told h
      · cases h
        rfl
      · exact onSide_told h
      · cases h
        rfl
    rw [htold]
    split_ifs with hun
    · refine ⟨List.subset_append_left _ _, fun j hj _ => ?_⟩
      cases hj
      simp
    · refine ⟨List.Subset.refl _, fun j hj hunj => ?_⟩
      cases hj
      exact absurd hunj hun

theorem step_told {op : Op} {t : RequestSend} (h : s.step maxReqLen connOpen op = .ok t) :
    s.told ⊆ t.told := by
  have hsame (htold : t.told = s.told) : s.told ⊆ t.told := htold ▸ List.Subset.refl _
  cases op with
  | queue x needsResponse withdrawOnTimeout sends =>
    apply hsame
    simp only [step] at h
    split at h
    · cases h
      rfl
    · split_ifs at h
      · cases h
        rfl
      · rw [onSide_told h]
  | write offer bytes sends => exact hsame (onSide_told h)
  | acknowledge bytes =>
    simp only [step] at h
    exact hsame (onSide_told h)
  | timeOut q sends => exact (withdrawQueued_told h).1
  | reply q =>
    cases h
    exact hsame rfl

/-- In every state that commands, responses, writes, acks, replies and timeouts reach:

* the bytes written are a prefix of whole frames, in the order they were queued;
* a request answered by the timer before any of its bytes was written, and not to be sent after
  a timeout, is on record from then on, and nothing of it is among what is or will be written;
* every other accepted frame is still queued or written;
* no operation fails. -/
theorem timed_out_never_written {s : RequestSend} (h : (machine maxReqLen).Reachable s) :
    ((∀ b ∈ s.side.ledger.live, ∃ x : Send, x.frame maxReqLen = .ok b.data) ∧
      s.side.ledger.live.Sublist s.side.stream.accepted ∧
      s.side.ledger.consumed <+: bytesOf s.side.ledger.live) ∧
    ((∀ connOpen q sends t, s.step maxReqLen connOpen (.timeOut q sends) = .ok t →
        ∀ k ∈ q.queued, s.Unwritten k → k ∈ t.told) ∧
      (∀ connOpen op t, s.step maxReqLen connOpen op = .ok t → s.told ⊆ t.told) ∧
      ∀ k ∈ s.told, ∀ b ∈ s.side.ledger.live, b.keepAlive ≠ some k) ∧
    ((∀ b ∈ s.side.stream.accepted,
        b ∈ s.side.ledger.live ∨ ∃ k ∈ s.told, b.keepAlive = some k) ∧
      s.side.ledger.consumed ++ s.side.stream.unsentBytes = bytesOf s.side.ledger.live) ∧
    ∀ connOpen op, s.Enabled op → ∃ t, s.step maxReqLen connOpen op = .ok t := by
  have hinv := (machine_inductive maxReqLen).reachable h
  have hbytes := hinv.agrees.consumed_append
  obtain ⟨released, held, hsplit⟩ := id hinv.agrees
  refine ⟨⟨fun b hb => hinv.numbered.frame b (hsplit.order.subset hb), hsplit.order, _, hbytes⟩,
    ⟨fun connOpen q sends t hstep => (withdrawQueued_told hstep).2,
      fun connOpen op t hstep => step_told hstep, hinv.told⟩, ⟨fun b hb => ?_, hbytes⟩,
    fun connOpen op hen => (machine_inductive maxReqLen).progress (i := (connOpen, op)) h hen⟩
  rcases List.mem_append.mp (hsplit.whole.mem_iff.mpr hb) with hb | hb
  · exact .inl hb
  · exact .inr (hinv.kept b hb)

instance (s : RequestSend) : (op : Op) → Decidable (s.Enabled op)
  | .queue (.command ..) _ _ _ => inferInstanceAs (Decidable True)
  | .queue (.response ..) _ _ _ => inferInstanceAs (Decidable (_ = _))
  | .write .. => inferInstanceAs (Decidable (_ ≤ _))
  | .acknowledge .. => inferInstanceAs (Decidable (_ ≤ _))
  | .timeOut .. => inferInstanceAs (Decidable (_ ∈ _))
  | .reply .. => inferInstanceAs (Decidable (_ ∈ _))

instance (s : RequestSend) (op : Bool × Op) : Decidable ((machine maxReqLen).enabled s op) :=
  inferInstanceAs (Decidable (s.Enabled op.2))

/-- Three requests of which the first is partly written. All time out: the first stays, the
second is withdrawn, and the third asked to be sent anyway. -/
theorem timed_out_never_written_three_requests :
    ∃ s, (machine 100).Reachable s ∧ s.told = [1] ∧
      s.side.ledger.live.map Buffer.keepAlive = [some 0, some 2] ∧
      ∀ k ∈ s.told, ∀ b ∈ s.side.ledger.live, b.keepAlive ≠ some k := by
  have h0 : (machine 100).Reachable ⟨⟨{}, {}⟩, 0, [], []⟩ :=
    .initial (by simp [machine, SendState.Initial])
  have hrun : ((machine 100).run ⟨⟨{}, {}⟩, 0, [], []⟩
      [(true, .queue (.command [120] 0 []) true true .done),
        (true, .queue (.command [120] 1 []) true true .done),
        (true, .queue (.command [120] 2 []) true false .done),
        (true, .write 10 4 .done), (true, .acknowledge 4),
        (true, .timeOut ⟨0, some 0⟩ .done), (true, .timeOut ⟨1, some 1⟩ .done),
        (true, .timeOut ⟨2, none⟩ .done)]).map
      (fun s => (s.told, s.side.ledger.live.map Buffer.keepAlive)) =
        some ([1], [some 0, some 2]) := by decide +kernel
  obtain ⟨s, hs, hview⟩ := Option.map_eq_some_iff.mp hrun
  have h := h0.run hs
  exact ⟨s, h, congrArg Prod.fst hview, congrArg Prod.snd hview,
    (timed_out_never_written h).2.1.2.2⟩

end RequestSend
end Libquic
