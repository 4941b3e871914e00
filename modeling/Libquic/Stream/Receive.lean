import Libquic.Lib.Machine
import Libquic.Stream.Basic

/-!
# Receiving stream data and returning flow control credit

`stream_receive` hands a frame's data to the stream and then gives the peer credit for
it, on the stream's window and on the connection's. A paused stream withholds its own
window's credit until it is resumed. Data and fin callbacks are application code: what
one invocation does to the flow control of any stream is a list of `FlowAct`s.
-/
namespace Libquic

open Lib

/-- Stream data as ngtcp2 passes it to `stream_receive`. -/
structure Frame where
  id : Int
  data : Bytes
  fin : Bool
  deriving DecidableEq, Repr

namespace Stream

def pause (s : Stream) : Except Fault Stream :=
  if s.paused then .ok s
  else if s.pausedOffset = 0 then .ok { s with paused := true } else .error .assertion

/-- Returns also what is passed to `ngtcp2_conn_extend_max_stream_offset`; nothing is if
that is zero. -/
def resume (s : Stream) : Stream × Nat :=
  if s.paused then ({ s with paused := false, pausedOffset := 0 }, s.pausedOffset) else (s, 0)

def onFin (s : Stream) : Stream := { s with receivedFin := true }

/-- A stream that is not paused withholds no credit. -/
def Settled (s : Stream) : Prop := s.paused = false → s.pausedOffset = 0

theorem pause_spec {s : Stream} (h : s.Settled) :
    ∃ t, s.pause = .ok t ∧ t.Settled ∧ t.pausedOffset = s.pausedOffset := by
  cases hp : s.paused with
  | true => exact ⟨s, by simp [pause, hp], h, rfl⟩
  | false =>
    have h0 := h hp
    exact ⟨{ s with paused := true }, by simp [pause, hp, h0], by simp [Settled], rfl⟩

theorem resume_spec {s : Stream} (h : s.Settled) :
    s.resume.1.Settled ∧ s.resume.2 + s.resume.1.pausedOffset = s.pausedOffset := by
  cases hp : s.paused with
  | true => simp [resume, hp, Settled]
  | false => simpa [resume, hp] using h

end Stream

/-- A call on some stream from inside a callback. -/
inductive FlowAct where
  | pause (id : Int)
  | resume (id : Int)
  deriving DecidableEq, Repr

/-- One invocation of a data callback: what it does, and the code of the error it throws. -/
structure DataCall where
  acts : List FlowAct := []
  error : Option Nat := none
  deriving DecidableEq, Repr

/-- What `stream_receive` returns to ngtcp2. -/
inductive ReceiveResult where
  | ok | callbackFailure
  deriving DecidableEq, Repr

/-- A live connection's streams by id, with the totals passed to
`ngtcp2_conn_extend_max_offset` and, for each stream, to
`ngtcp2_conn_extend_max_stream_offset`. -/
structure FlowConn where
  streams : Int → Option Stream := fun _ => none
  maxOffset : Nat := 0
  maxStreamOffset : Int → Nat := fun _ => 0
  /-- The frames whose data a stream was given, newest first. A history variable. -/
  delivered : List Frame := []

namespace FlowConn

def setStream (c : FlowConn) (id : Int) (s : Stream) : FlowConn :=
  { c with streams := Function.update c.streams id (some s) }

def extendMaxOffset (c : FlowConn) (n : Nat) : FlowConn :=
  { c with maxOffset := c.maxOffset + n }

def extendMaxStreamOffset (c : FlowConn) (id : Int) (n : Nat) : FlowConn :=
  { c with maxStreamOffset := Function.update c.maxStreamOffset id (c.maxStreamOffset id + n) }

/-- Note that a stream has been given the data of a frame. -/
def deliver (c : FlowConn) (frame : Frame) : FlowConn :=
  { c with delivered := frame :: c.delivered }

section Fields

variable (c : FlowConn) (id id' : Int) (s : Stream) (n : Nat) (frame : Frame)

@[simp] theorem setStream_streams :
    (c.setStream id s).streams id' = if id' = id then some s else c.streams id' := by
  simp [setStream, Function.update_apply]
@[simp] theorem setStream_maxOffset : (c.setStream id s).maxOffset = c.maxOffset := rfl
@[simp] theorem setStream_maxStreamOffset :
    (c.setStream id s).maxStreamOffset id' = c.maxStreamOffset id' := rfl
@[simp] theorem setStream_delivered : (c.setStream id s).delivered = c.delivered := rfl
@[simp] theorem extendMaxOffset_streams : (c.extendMaxOffset n).streams id = c.streams id := rfl
@[simp] theorem extendMaxOffset_maxOffset : (c.extendMaxOffset n).maxOffset = c.maxOffset + n := rfl
@[simp] theorem extendMaxOffset_maxStreamOffset :
    (c.extendMaxOffset n).maxStreamOffset id = c.maxStreamOffset id := rfl
@[simp] theorem extendMaxOffset_delivered : (c.extendMaxOffset n).delivered = c.delivered := rfl
@[simp] theorem extendMaxStreamOffset_streams :
    (c.extendMaxStreamOffset id n).streams id' = c.streams id' := rfl
@[simp] theorem extendMaxStreamOffset_maxOffset :
    (c.extendMaxStreamOffset id n).maxOffset = c.maxOffset := rfl
@[simp] theorem extendMaxStreamOffset_maxStreamOffset :
    (c.extendMaxStreamOffset id n).maxStreamOffset id' =
      c.maxStreamOffset id' + if id' = id then n else 0 := by
  by_cases h : id' = id <;> simp [extendMaxStreamOffset, h]
@[simp] theorem extendMaxStreamOffset_delivered :
    (c.extendMaxStreamOffset id n).delivered = c.delivered := rfl
@[simp] theorem deliver_streams : (c.deliver frame).streams id = c.streams id := rfl
@[simp] theorem deliver_maxOffset : (c.deliver frame).maxOffset = c.maxOffset := rfl
@[simp] theorem deliver_maxStreamOffset :
    (c.deliver frame).maxStreamOffset id = c.maxStreamOffset id := rfl
@[simp] theorem deliver_delivered : (c.deliver frame).delivered = frame :: c.delivered := rfl

end Fields

/-- A stream that does not exist cannot be called. -/
def act (c : FlowConn) : FlowAct → Except Fault FlowConn
  | .pause id =>
    match c.streams id with
    | none => .ok c
    | some s => do return c.setStream id (← s.pause)
  | .resume id =>
    match c.streams id with
    | none => .ok c
    | some s => .ok ((c.setStream id s.resume.1).extendMaxStreamOffset id s.resume.2)

def acts (c : FlowConn) : List FlowAct → Except Fault FlowConn
  | [] => .ok c
  | a :: rest => do acts (← c.act a) rest

/-- Apply `f` to the stream object with that id. -/
def onStream (c : FlowConn) (id : Int) (f : Stream → Except Fault FlowConn) :
    Except Fault FlowConn :=
  match c.streams id with
  | none => .error .nullPointer
  | some s => f s

/-- The fin callback runs after the stream has noted the FIN. -/
def receiveFin (c : FlowConn) (id : Int) (finCall : List FlowAct) : Except Fault FlowConn :=
  c.onStream id fun s => (c.setStream id s.onFin).acts finCall

/-- Credit for data of a frame without FIN. -/
def returnCredit (c : FlowConn) (id : Int) (n : Nat) : Except Fault FlowConn :=
  c.onStream id fun s =>
    .ok ((if s.paused then c.setStream id { s with pausedOffset := s.pausedOffset + n }
      else c.extendMaxStreamOffset id n).extendMaxOffset n)

def streamReceive (c : FlowConn) (frame : Frame) (dataCall : DataCall) (finCall : List FlowAct) :
    Except Fault (FlowConn × ReceiveResult) :=
  if frame.data = [] then do
    if frame.fin then return (← c.receiveFin frame.id finCall, .ok)
    return (c, .ok)
  else do
    let c ← c.onStream frame.id fun _ => c.acts dataCall.acts
    let c := c.deliver frame
    if dataCall.error.isSome then
      let c ← c.onStream frame.id fun s => .ok (c.setStream frame.id s.close)
      return (c, .callbackFailure)
    if frame.fin then return (← c.receiveFin frame.id finCall, .ok)
    return (← c.returnCredit frame.id frame.data.length, .ok)

/-! ## Credit against the frames delivered -/

/-- The bytes of the frames that satisfy `p`. -/
def bytesIn (p : Frame → Bool) (frames : List Frame) : Nat :=
  ((frames.filter p).map (·.data.length)).sum

theorem bytesIn_cons (p : Frame → Bool) (f : Frame) (frames : List Frame) :
    bytesIn p (f :: frames) = (if p f then f.data.length else 0) + bytesIn p frames := by
  by_cases h : p f <;> simp [bytesIn, h]

def deliveredBytes (c : FlowConn) : Nat := bytesIn (fun _ => true) c.delivered

/-- What came in frames that carried FIN as well. -/
def finBytes (c : FlowConn) : Nat := bytesIn (·.fin) c.delivered

/-- What one stream was given in frames without FIN. -/
def plainBytes (c : FlowConn) (id : Int) : Nat :=
  bytesIn (fun f => f.id = id && !f.fin) c.delivered

theorem deliver_plainBytes (c : FlowConn) (frame : Frame) (id : Int) :
    (c.deliver frame).plainBytes id =
      (if frame.id = id ∧ frame.fin = false then frame.data.length else 0) + c.plainBytes id := by
  simp [plainBytes, bytesIn_cons]

/-- The connection owes the peer exactly the credit for data that came with a FIN, and
each stream what it withholds while paused. -/
structure Credited (c : FlowConn) : Prop where
  conn : c.maxOffset + c.finBytes = c.deliveredBytes
  settled : ∀ id s, c.streams id = some s → s.Settled
  stream : ∀ id s, c.streams id = some s →
    c.maxStreamOffset id + s.pausedOffset = c.plainBytes id
  fresh : ∀ id, c.streams id = none → c.maxStreamOffset id = 0 ∧ c.plainBytes id = 0
  filled : ∀ f ∈ c.delivered, f.data ≠ []

variable {c : FlowConn}

/-- Credit that a stream stops withholding is passed on. -/
theorem Credited.release (h : c.Credited) {id : Int} {s t : Stream} {n : Nat}
    (hs : c.streams id = some s) (ht : t.Settled) (hn : n + t.pausedOffset = s.pausedOffset) :
    ((c.setStream id t).extendMaxStreamOffset id n).Credited := by
  have hbal := h.stream id s hs
  refine ⟨h.conn, ?_, ?_, ?_, h.filled⟩
  · intro id' s' hs'
    have := h.settled id' s'
    grind [extendMaxStreamOffset_streams, setStream_streams]
  · intro id' s' hs'
    have := h.stream id' s'
    have hsame : ((c.setStream id t).extendMaxStreamOffset id n).plainBytes id' =
      c.plainBytes id' := rfl
    grind [extendMaxStreamOffset_streams, setStream_streams,
      extendMaxStreamOffset_maxStreamOffset, setStream_maxStreamOffset]
  · intro id' hs'
    have := h.fresh id'
    have hsame : ((c.setStream id t).extendMaxStreamOffset id n).plainBytes id' =
      c.plainBytes id' := rfl
    grind [extendMaxStreamOffset_streams, setStream_streams,
      extendMaxStreamOffset_maxStreamOffset, setStream_maxStreamOffset]

theorem Credited.setStream (h : c.Credited) {id : Int} {s t : Stream}
    (hs : c.streams id = some s) (ht : t.Settled) (hn : t.pausedOffset = s.pausedOffset) :
    (c.setStream id t).Credited := by
  have hsame : (c.setStream id t).extendMaxStreamOffset id 0 = c.setStream id t := by
    simp only [extendMaxStreamOffset, Nat.add_zero, Function.update_eq_self]
  exact hsame ▸ h.release hs ht (n := 0) (by omega)

theorem act_credited (h : c.Credited) (a : FlowAct) :
    ∃ c', c.act a = .ok c' ∧ c'.Credited ∧ ∀ id, (c'.streams id).isSome = (c.streams id).isSome := by
  cases a with
  | pause id =>
    cases hs : c.streams id with
    | none => exact ⟨c, by simp [act, hs], h, fun _ => rfl⟩
    | some s =>
      obtain ⟨t, hok, ht, hn⟩ := Stream.pause_spec (h.settled id s hs)
      refine ⟨c.setStream id t, by simp [act, hs, hok], h.setStream hs ht hn, ?_⟩
      intro id'
      by_cases he : id' = id <;> simp [he, hs]
  | resume id =>
    cases hs : c.streams id with
    | none => exact ⟨c, by simp [act, hs], h, fun _ => rfl⟩
    | some s =>
      obtain ⟨ht, hn⟩ := Stream.resume_spec (h.settled id s hs)
      refine ⟨_, by rw [act, hs], h.release hs ht hn, ?_⟩
      intro id'
      by_cases he : id' = id <;> simp [he, hs]

/-- A callback leaves the books balanced and every stream in place. -/
theorem acts_credited (h : c.Credited) (calls : List FlowAct) :
    ∃ c', c.acts calls = .ok c' ∧ c'.Credited ∧
      ∀ id, (c'.streams id).isSome = (c.streams id).isSome := by
  induction calls generalizing c with
  | nil => exact ⟨c, rfl, h, fun _ => rfl⟩
  | cons a calls ih =>
    obtain ⟨c₁, hok, h₁, hids⟩ := act_credited h a
    obtain ⟨c₂, hok', h₂, hids'⟩ := ih h₁
    exact ⟨c₂, by simp [acts, hok, hok'], h₂, fun id => (hids' id).trans (hids id)⟩

theorem receiveFin_credited (h : c.Credited) {id : Int} (hs : (c.streams id).isSome)
    (finCall : List FlowAct) : ∃ c', c.receiveFin id finCall = .ok c' ∧ c'.Credited := by
  obtain ⟨s, hs⟩ := Option.isSome_iff_exists.mp hs
  have hfin : (c.setStream id s.onFin).Credited := h.setStream hs (h.settled id s hs) rfl
  obtain ⟨c', hok, h', -⟩ := acts_credited hfin finCall
  exact ⟨c', by simp [receiveFin, onStream, hs, hok], h'⟩

/-- Noting a delivered frame that carries FIN keeps the books: its credit stays owed. -/
theorem Credited.deliverFin (h : c.Credited) {frame : Frame} (hfin : frame.fin = true)
    (hne : frame.data ≠ []) : (c.deliver frame).Credited := by
  have hplain (id : Int) : (c.deliver frame).plainBytes id = c.plainBytes id := by
    simp [deliver_plainBytes, hfin]
  refine ⟨?_, h.settled, ?_, ?_, by simpa [hne] using h.filled⟩
  · have := h.conn
    simp only [finBytes, deliveredBytes, deliver_delivered, deliver_maxOffset, bytesIn_cons, hfin,
      if_true] at this ⊢
    omega
  · intro id s hs
    rw [hplain]
    exact h.stream id s hs
  · intro id hs
    rw [hplain]
    exact h.fresh id hs

/-- A delivered frame without FIN is credited in full, now or when the stream resumes. -/
theorem Credited.deliverPlain (h : c.Credited) {frame : Frame} (hfin : frame.fin = false)
    (hne : frame.data ≠ []) (hs : (c.streams frame.id).isSome) :
    ∃ c', (c.deliver frame).returnCredit frame.id frame.data.length = .ok c' ∧ c'.Credited := by
  obtain ⟨s, hs⟩ := Option.isSome_iff_exists.mp hs
  have hbal := h.stream _ s hs
  have hconn : c.maxOffset + frame.data.length + (c.deliver frame).finBytes =
      (c.deliver frame).deliveredBytes := by
    have := h.conn
    simp only [finBytes, deliveredBytes, deliver_delivered, bytesIn_cons, hfin, if_true,
      Bool.false_eq_true, if_false] at this ⊢
    omega
  have hplain := deliver_plainBytes c frame
  have hfilled : ∀ f ∈ (c.deliver frame).delivered, f.data ≠ [] := by simpa [hne] using h.filled
  cases hp : s.paused with
  | true =>
    have hret : (c.deliver frame).returnCredit frame.id frame.data.length =
        .ok (((c.deliver frame).setStream frame.id
          { s with pausedOffset := s.pausedOffset + frame.data.length }).extendMaxOffset
            frame.data.length) := by
      simp [returnCredit, onStream, hs, hp]
    refine ⟨_, hret, hconn, ?_, ?_, ?_, hfilled⟩
    · intro id t ht
      have := h.settled id t
      grind [extendMaxOffset_streams, setStream_streams, deliver_streams, Stream.Settled]
    · intro id t ht
      have := h.stream id t
      change c.maxStreamOffset id + t.pausedOffset = (c.deliver frame).plainBytes id
      grind [extendMaxOffset_streams, setStream_streams, deliver_streams]
    · intro id ht
      have := h.fresh id
      change c.maxStreamOffset id = 0 ∧ (c.deliver frame).plainBytes id = 0
      grind [extendMaxOffset_streams, setStream_streams, deliver_streams]
  | false =>
    have hret : (c.deliver frame).returnCredit frame.id frame.data.length =
        .ok (((c.deliver frame).extendMaxStreamOffset frame.id frame.data.length).extendMaxOffset
          frame.data.length) := by
      simp [returnCredit, onStream, hs, hp]
    refine ⟨_, hret, hconn, h.settled, ?_, ?_, hfilled⟩
    · intro id t ht
      have := h.stream id t ht
      change ((c.deliver frame).extendMaxStreamOffset frame.id frame.data.length).maxStreamOffset id
        + t.pausedOffset = (c.deliver frame).plainBytes id
      grind [extendMaxStreamOffset_maxStreamOffset, deliver_maxStreamOffset]
    · intro id ht
      have := h.fresh id ht
      change ((c.deliver frame).extendMaxStreamOffset frame.id frame.data.length).maxStreamOffset id
        = 0 ∧ (c.deliver frame).plainBytes id = 0
      have he : frame.id ≠ id := by
        rintro rfl
        exact Option.some_ne_none s (hs.symm.trans ht)
      grind [extendMaxStreamOffset_maxStreamOffset, deliver_maxStreamOffset]

theorem streamReceive_credited (h : c.Credited) {frame : Frame} {dataCall : DataCall}
    (finCall : List FlowAct) (hs : (c.streams frame.id).isSome) (hok : dataCall.error = none) :
    ∃ c', c.streamReceive frame dataCall finCall = .ok (c', .ok) ∧ c'.Credited := by
  by_cases hempty : frame.data = []
  · cases hfin : frame.fin with
    | true =>
      obtain ⟨c', hr, h'⟩ := receiveFin_credited h hs finCall
      exact ⟨c', by simp [streamReceive, hempty, hfin, hr], h'⟩
    | false => exact ⟨c, by simp [streamReceive, hempty, hfin], h⟩
  · obtain ⟨s, hstr⟩ := Option.isSome_iff_exists.mp hs
    obtain ⟨c₁, hacts, h₁, hids⟩ := acts_credited h dataCall.acts
    have hs₁ : (c₁.streams frame.id).isSome := (hids frame.id).trans hs
    cases hfin : frame.fin with
    | true =>
      obtain ⟨c', hr, h'⟩ := receiveFin_credited (h₁.deliverFin hfin hempty) hs₁ finCall
      exact ⟨c', by simp [streamReceive, hempty, onStream, hstr, hacts, hok, hfin, hr], h'⟩
    | false =>
      obtain ⟨c', hr, h'⟩ := h₁.deliverPlain hfin hempty hs₁
      exact ⟨c', by simp [streamReceive, hempty, onStream, hstr, hacts, hok, hfin, hr], h'⟩

/-! ## Flow control over whole runs -/

inductive Op where
  | openStream (id : Int)
  | receive (frame : Frame) (dataCall : DataCall) (finCall : List FlowAct)
  | act (call : FlowAct)
  deriving DecidableEq, Repr

/-- Stream ids are not reused, data arrives on existing streams only, and data callbacks
return normally. -/
def Enabled (c : FlowConn) : Op → Prop
  | .openStream id => (c.streams id).isNone
  | .receive frame dataCall _ => (c.streams frame.id).isSome ∧ dataCall.error = none
  | .act _ => True

instance (c : FlowConn) : (op : Op) → Decidable (c.Enabled op)
  | .openStream _ => inferInstanceAs (Decidable (_ = _))
  | .receive .. => inferInstanceAs (Decidable (_ ∧ _))
  | .act _ => inferInstanceAs (Decidable True)

def step (c : FlowConn) : Op → Except Fault FlowConn
  | .openStream id => .ok (c.setStream id { streamId := id })
  | .receive frame dataCall finCall => do return (← c.streamReceive frame dataCall finCall).1
  | .act call => c.act call

def machine : Machine FlowConn Op Fault where
  initial c := c = {}
  enabled := Enabled
  step := step

instance (c : FlowConn) (op : Op) : Decidable (machine.enabled c op) :=
  inferInstanceAs (Decidable (c.Enabled op))

theorem openStream_credited (h : c.Credited) {id : Int} (hs : c.streams id = none) :
    (c.setStream id { streamId := id }).Credited := by
  obtain ⟨hoff, hplain⟩ := h.fresh id hs
  refine ⟨h.conn, ?_, ?_, ?_, h.filled⟩
  · intro id' t ht
    have := h.settled id' t
    grind [setStream_streams, Stream.Settled]
  · intro id' t ht
    have := h.stream id' t
    change c.maxStreamOffset id' + t.pausedOffset = c.plainBytes id'
    grind [setStream_streams]
  · intro id' ht
    have := h.fresh id'
    change c.maxStreamOffset id' = 0 ∧ c.plainBytes id' = 0
    grind [setStream_streams]

theorem credited_inductive : machine.Inductive Credited where
  initial c h := by
    subst h
    constructor <;> simp [finBytes, deliveredBytes, plainBytes, bytesIn]
  step c op h hen := by
    cases op with
    | openStream id => exact ⟨_, rfl, openStream_credited h (Option.isNone_iff_eq_none.mp hen)⟩
    | receive frame dataCall finCall =>
      obtain ⟨c', hok, h'⟩ := streamReceive_credited h finCall hen.1 hen.2
      exact ⟨c', by simp [machine, step, hok], h'⟩
    | act call =>
      obtain ⟨c', hok, h', -⟩ := act_credited h call
      exact ⟨c', hok, h'⟩

theorem finBytes_eq_zero_iff (hne : ∀ f ∈ c.delivered, f.data ≠ []) :
    c.finBytes = 0 ↔ ∀ f ∈ c.delivered, f.fin = false := by
  simp only [finBytes, bytesIn, List.sum_eq_zero_iff, List.mem_map, List.mem_filter]
  constructor
  · intro h f hf
    by_contra hfin
    exact hne f hf (List.length_eq_zero_iff.mp (h _ ⟨f, ⟨hf, by simpa using hfin⟩, rfl⟩))
  · rintro h _ ⟨f, ⟨hf, hfin⟩, rfl⟩
    simp [h f hf] at hfin

/-- In every reachable state each stream's window has been credited for all data that came
without FIN, except what it withholds while paused. The connection's window has been
credited for all data delivered exactly if none of it came in a frame with FIN. -/
theorem reachable_credit (h : machine.Reachable c) :
    (c.maxOffset = c.deliveredBytes ↔ ∀ f ∈ c.delivered, f.fin = false) ∧
    (∀ id s, c.streams id = some s →
      c.maxStreamOffset id + s.pausedOffset = c.plainBytes id ∧
        (s.paused = false → s.pausedOffset = 0)) ∧
    (∀ op, c.Enabled op → ∃ c', c.step op = .ok c') := by
  have hcred : c.Credited := credited_inductive.reachable h
  refine ⟨?_, fun id s hs => ⟨hcred.stream id s hs, hcred.settled id s hs⟩,
    fun op hen => credited_inductive.progress h hen⟩
  rw [← finBytes_eq_zero_iff hcred.filled]
  have := hcred.conn
  omega

/-- A stream paused by its own data callback, and resumed later. -/
theorem reachable_credit_paused :
    ∃ c, machine.Reachable c ∧ (∀ f ∈ c.delivered, f.fin = false) ∧ c.deliveredBytes = 5 ∧
      c.maxOffset = c.deliveredBytes := by
  have h0 : machine.Reachable {} := .initial rfl
  have hrun : machine.run {} [.openStream 0, .receive ⟨0, [1, 2, 3], false⟩ ⟨[.pause 0], none⟩ [],
    .receive ⟨0, [4, 5], false⟩ {} [], .act (.resume 0)] = some _ := rfl
  have h := h0.run hrun
  exact ⟨_, h, by decide, by decide, (reachable_credit h).1.mpr (by decide)⟩

/-- One frame with data and FIN: the connection's window never gets its three bytes back. -/
theorem fin_frame_uncredited :
    ∃ c, machine.Reachable c ∧ c.delivered = [⟨0, [1, 2, 3], true⟩] ∧
      c.deliveredBytes = 3 ∧ c.maxOffset = 0 := by
  have h0 : machine.Reachable {} := .initial rfl
  have hrun : machine.run {} [.openStream 0, .receive ⟨0, [1, 2, 3], true⟩ {} []] = some _ := rfl
  exact ⟨_, h0.run hrun, rfl, by decide, rfl⟩

end FlowConn

end Libquic
