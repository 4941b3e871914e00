import Mathlib.Logic.Function.Basic
import Libquic.Lib.Machine
import Libquic.Stream.Basic

/-!
# The streams of the remote

`stream_opened`, `stream_closed` and `queue_incoming_stream_impl` once more, a callback at a time:
what the application does inside `stream_open_cb` or a close callback are steps of their own, so
that every id handed out on the way is seen. The two maps are functions from ids, and streams are
known by number. `close_all_streams` is a series of `stream_closed` besides clearing the queue.
`Connection.StreamIds` shows that this takes the steps of `Connection.Streams`.

ngtcp2 reports each stream of the remote once, in any order, and then resets and closes of it. How
it was told of more streams to allow is kept as the ids of the streams that ended.
-/
namespace Libquic

open Lib

/-- Both notices lead to `stream_closed`. -/
inductive Notice where
  | reset | close
  deriving DecidableEq, Repr

/-- Where the loop thread is: outside of these functions, in the `stream_open_cb` of
`stream_opened`, or in the close callback of `stream_closed`. -/
inductive StreamPhase where
  | idle
  | opening (id : Int) (ref : Nat)
  | ending (id : Int) (notice : Notice)
  deriving DecidableEq, Repr

def StreamPhase.isOpening : StreamPhase → Bool
  | opening _ _ => true
  | _ => false

def StreamPhase.isEnding : StreamPhase → Bool
  | ending _ _ => true
  | _ => false

structure RemoteStreams where
  streams : Int → Option Nat := fun _ => none
  streamQueue : Int → Option Nat := fun _ => none
  nextIncomingStreamId : Int := 1
  /-- The id that ngtcp2 gives the next stream opened here. -/
  nextStreamId : Int := 0
  /-- How many stream objects there are. -/
  count : Nat := 0
  /-- `is_closing() || is_draining()` -/
  closing : Bool := false
  /-- `drop_streams` has run, and ngtcp2 reports nothing more. -/
  deleted : Bool := false
  phase : StreamPhase := .idle
  /-- The ids reported as opened, given to queued streams, refused by `stream_open_cb`, reported as
  closed, and those for which `ngtcp2_conn_extend_max_streams_bidi` was called. History variables:
  nothing reads them. -/
  opened : List Int := []
  given : List (Int × Nat) := []
  rejected : List Int := []
  closed : List Int := []
  extended : List Int := []

namespace RemoteStreams

/-- The stream was opened by the remote: `!ngtcp2_conn_is_local_stream`. -/
def IsRemote (s : RemoteStreams) (id : Int) : Prop := id % 4 = s.nextIncomingStreamId % 4

instance (s : RemoteStreams) (id : Int) : Decidable (s.IsRemote id) :=
  inferInstanceAs (Decidable (_ = _))

def queueIncomingStream (s : RemoteStreams) : RemoteStreams :=
  let id := s.nextIncomingStreamId
  { s with
    nextIncomingStreamId := id + 4
    count := s.count + 1
    given := s.given ++ [(id, s.count)]
    streamQueue := if s.closing then s.streamQueue else Function.update s.streamQueue id s.count }

/-- A stream opened here gets its id, at once or when the remote allows more streams. -/
def openStream (ref : Nat) (s : RemoteStreams) : RemoteStreams :=
  { s with
    streams := Function.update s.streams s.nextStreamId ref
    nextStreamId := s.nextStreamId + 4 }

/-- `_streams.emplace(…)` with the assertion that the id was not there. -/
def emplace (id : Int) (ref : Nat) (s : RemoteStreams) : Except Fault RemoteStreams :=
  match s.streams id with
  | some _ => .error .assertion
  | none => .ok { s with streams := Function.update s.streams id ref }

/-- `stream_opened` up to `stream_open_cb`, which is not called for a queued stream. -/
def streamOpened (id : Int) (s : RemoteStreams) : Except Fault RemoteStreams :=
  match s.streamQueue id with
  | some ref => do
    let t ← s.emplace id ref
    .ok { t with
      streamQueue := Function.update s.streamQueue id none
      opened := s.opened ++ [id] }
  | none =>
    .ok { s with
      nextIncomingStreamId :=
        if id = s.nextIncomingStreamId then id + 4 else s.nextIncomingStreamId
      count := s.count + 1
      phase := .opening id s.count
      opened := s.opened ++ [id] }

/-- The rest of `stream_opened`, once `stream_open_cb` has returned zero or not. -/
def streamOpenCb (accept : Bool) (s : RemoteStreams) : Except Fault RemoteStreams :=
  match s.phase with
  | .opening id ref =>
    if accept then { s with phase := .idle }.emplace id ref
    else .ok { s with phase := .idle, rejected := s.rejected ++ [id] }
  | _ => .error .outOfRange

/-- The notice has been handled. -/
def noticed (id : Int) (notice : Notice) (s : RemoteStreams) : RemoteStreams :=
  match notice with
  | .reset => s
  | .close => { s with closed := s.closed ++ [id] }

/-- `stream_closed` up to the close callback. -/
def streamClosed (id : Int) (notice : Notice) (s : RemoteStreams) : RemoteStreams :=
  match s.streams id with
  | none => s.noticed id notice
  | some _ => { s with phase := .ending id notice }

/-- The rest of `stream_closed`. -/
def streamCloseCb (s : RemoteStreams) : Except Fault RemoteStreams :=
  match s.phase with
  | .ending id notice =>
    .ok ({ s with
      streams := Function.update s.streams id none
      extended := if s.IsRemote id then s.extended ++ [id] else s.extended
      phase := .idle }.noticed id notice)
  | _ => .error .outOfRange

inductive Op where
  | queueIncomingStream
  /-- `open_stream` makes its object. -/
  | makeStream
  | openStream (ref : Nat)
  | streamOpened (id : Int)
  | streamOpenCb (accept : Bool)
  | streamClosed (id : Int) (notice : Notice)
  | streamCloseCb
  /-- The connection is closing or draining from now on. -/
  | startClosing
  /-- `_stream_queue.clear()` in `close_all_streams`. -/
  | clearQueue
  /-- `drop_streams` -/
  | dropStreams
  deriving DecidableEq, Repr

def step (s : RemoteStreams) : Op → Except Fault RemoteStreams
  | .queueIncomingStream => .ok s.queueIncomingStream
  | .makeStream => .ok { s with count := s.count + 1 }
  | .openStream ref => .ok (s.openStream ref)
  | .streamOpened id => s.streamOpened id
  | .streamOpenCb accept => s.streamOpenCb accept
  | .streamClosed id notice => .ok (s.streamClosed id notice)
  | .streamCloseCb => s.streamCloseCb
  | .startClosing => .ok { s with closing := true }
  | .clearQueue => .ok { s with streamQueue := fun _ => none }
  | .dropStreams =>
    .ok { s with
      streams := fun _ => none, streamQueue := fun _ => none, closing := true, deleted := true }

/-- The remote opens streams of its own, each once, and ngtcp2 reports the end of streams that
there are. `queue_incoming_stream` and `open_stream` may be called anywhere. -/
def Enabled (s : RemoteStreams) : Op → Prop
  | .queueIncomingStream => True
  | .makeStream => True
  | .openStream ref => s.closing = false ∧ ref < s.count
  | .streamOpened id => s.phase = .idle ∧ s.deleted = false ∧ s.IsRemote id ∧ id ∉ s.opened
  | .streamOpenCb _ => s.phase.isOpening = true
  | .streamClosed id _ =>
    s.phase = .idle ∧ s.deleted = false ∧ (id ∈ s.opened ∨ ¬ s.IsRemote id)
  | .streamCloseCb => s.phase.isEnding = true
  | .startClosing => True
  | .clearQueue => s.phase = .idle
  | .dropStreams => s.phase = .idle

/-- A client opens streams 0, 4, 8 and so on, and a server 1, 5, 9. -/
def Initial (s : RemoteStreams) : Prop :=
  s = {} ∨ s = { nextIncomingStreamId := 0, nextStreamId := 1 }

def machine : Machine RemoteStreams Op Fault where
  initial := Initial
  enabled := Enabled
  step := step

instance (s : RemoteStreams) : (op : Op) → Decidable (machine.enabled s op)
  | .queueIncomingStream => inferInstanceAs (Decidable True)
  | .makeStream => inferInstanceAs (Decidable True)
  | .openStream ref => inferInstanceAs (Decidable (s.closing = false ∧ ref < s.count))
  | .streamOpened id =>
    inferInstanceAs
      (Decidable (s.phase = .idle ∧ s.deleted = false ∧ s.IsRemote id ∧ id ∉ s.opened))
  | .streamOpenCb _ => inferInstanceAs (Decidable (s.phase.isOpening = true))
  | .streamClosed id _ =>
    inferInstanceAs
      (Decidable (s.phase = .idle ∧ s.deleted = false ∧ (id ∈ s.opened ∨ ¬ s.IsRemote id)))
  | .streamCloseCb => inferInstanceAs (Decidable (s.phase.isEnding = true))
  | .startClosing => inferInstanceAs (Decidable True)
  | .clearQueue => inferInstanceAs (Decidable (s.phase = .idle))
  | .dropStreams => inferInstanceAs (Decidable (s.phase = .idle))

/-! ## What a step can do -/

variable {s t : RemoteStreams} {op : Op}

/-- Every outcome of every step, with the facts it rests on. -/
inductive Change (s : RemoteStreams) : Op → RemoteStreams → Prop
  | queue {queue} :
      queue = s.streamQueue ∨ queue = Function.update s.streamQueue s.nextIncomingStreamId s.count →
      Change s .queueIncomingStream { s with
        nextIncomingStreamId := s.nextIncomingStreamId + 4
        count := s.count + 1
        given := s.given ++ [(s.nextIncomingStreamId, s.count)]
        streamQueue := queue }
  | makeStream : Change s .makeStream { s with count := s.count + 1 }
  | openStream {ref} :
      Change s (.openStream ref) { s with
        streams := Function.update s.streams s.nextStreamId ref
        nextStreamId := s.nextStreamId + 4 }
  | openQueued {id ref} : s.streamQueue id = some ref → s.streams id = none → id ∉ s.opened →
      Change s (.streamOpened id) { s with
        streams := Function.update s.streams id ref
        streamQueue := Function.update s.streamQueue id none
        opened := s.opened ++ [id] }
  | openNext : s.streamQueue s.nextIncomingStreamId = none → s.nextIncomingStreamId ∉ s.opened →
      s.streams s.nextIncomingStreamId = none → s.phase = .idle →
      Change s (.streamOpened s.nextIncomingStreamId) { s with
        nextIncomingStreamId := s.nextIncomingStreamId + 4
        count := s.count + 1
        phase := .opening s.nextIncomingStreamId s.count
        opened := s.opened ++ [s.nextIncomingStreamId] }
  | openOther {id} : s.streamQueue id = none → id ∉ s.opened → s.streams id = none →
      s.phase = .idle → s.IsRemote id → id ≠ s.nextIncomingStreamId →
      Change s (.streamOpened id) { s with
        count := s.count + 1
        phase := .opening id s.count
        opened := s.opened ++ [id] }
  | accept {id ref} : s.phase = .opening id ref → s.streams id = none →
      Change s (.streamOpenCb true) { s with
        streams := Function.update s.streams id ref
        phase := .idle }
  | reject {id ref} : s.phase = .opening id ref →
      Change s (.streamOpenCb false) { s with phase := .idle, rejected := s.rejected ++ [id] }
  | unknown {id notice} : s.streams id = none → s.phase = .idle → s.deleted = false →
      id ∈ s.opened ∨ ¬ s.IsRemote id →
      Change s (.streamClosed id notice) (s.noticed id notice)
  | ending {id ref notice} : s.streams id = some ref → s.phase = .idle →
      Change s (.streamClosed id notice) { s with phase := .ending id notice }
  | ended {id notice} : s.phase = .ending id notice →
      Change s .streamCloseCb ({ s with
        streams := Function.update s.streams id none
        extended := if s.IsRemote id then s.extended ++ [id] else s.extended
        phase := .idle }.noticed id notice)
  | startClosing : Change s .startClosing { s with closing := true }
  | clearQueue : Change s .clearQueue { s with streamQueue := fun _ => none }
  | dropStreams : s.phase = .idle →
      Change s .dropStreams { s with
        streams := fun _ => none, streamQueue := fun _ => none, closing := true, deleted := true }

/-- The ids in the maps, whatever the order in which streams are seen. -/
structure Wf (s : RemoteStreams) : Prop where
  sides : s.nextIncomingStreamId % 4 ≠ s.nextStreamId % 4
  remote : ∀ id ∈ s.opened, s.IsRemote id
  keys : ∀ id ref, s.streams id = some ref →
    s.IsRemote id ∧ id ∈ s.opened ∨ id % 4 = s.nextStreamId % 4 ∧ id < s.nextStreamId
  queue : ∀ id ref, s.streamQueue id = some ref →
    s.IsRemote id ∧ id < s.nextIncomingStreamId ∧ (id, ref) ∈ s.given
  opening : ∀ id ref, s.phase = .opening id ref →
    s.IsRemote id ∧ id ∈ s.opened ∧ s.streams id = none
  ending : ∀ id notice, s.phase = .ending id notice →
    s.streams id ≠ none ∧ (id ∈ s.opened ∨ ¬ s.IsRemote id)
  given : ∀ entry ∈ s.given, entry.1 < s.nextIncomingStreamId
  distinct : (s.given.map Prod.fst).Nodup

theorem Wf.streams_eq_none (h : s.Wf) {id : Int} (hremote : s.IsRemote id) (hnew : id ∉ s.opened) :
    s.streams id = none := by
  cases hget : s.streams id with
  | none => rfl
  | some ref =>
    have hsides := h.sides
    unfold IsRemote at hremote
    rcases h.keys id ref hget with ⟨-, hmem⟩ | ⟨hlocal, -⟩
    · exact absurd hmem hnew
    · omega

theorem emplace_ok {id : Int} {ref : Nat} (h : s.streams id = none) :
    s.emplace id ref = .ok { s with streams := Function.update s.streams id ref } := by
  simp only [emplace, h]

theorem streamOpened_change {id : Int} (h : s.Wf) (hen : s.Enabled (.streamOpened id)) :
    ∃ t, s.step (.streamOpened id) = .ok t ∧ Change s (.streamOpened id) t := by
  obtain ⟨hidle, -, hremote, hnew⟩ := hen
  have hnone := h.streams_eq_none hremote hnew
  simp only [step, streamOpened]
  cases hqueue : s.streamQueue id with
  | some ref =>
    simp only [emplace_ok hnone, ok_bind]
    exact ⟨_, rfl, .openQueued hqueue hnone hnew⟩
  | none =>
    refine ⟨_, rfl, ?_⟩
    by_cases hnext : id = s.nextIncomingStreamId
    · subst hnext
      simp only [if_true]
      exact .openNext hqueue hnew hnone hidle
    · simp only [if_neg hnext]
      exact .openOther hqueue hnew hnone hidle hremote hnext

theorem streamOpenCb_change {accept : Bool} (h : s.Wf) (hen : s.Enabled (.streamOpenCb accept)) :
    ∃ t, s.step (.streamOpenCb accept) = .ok t ∧ Change s (.streamOpenCb accept) t := by
  obtain ⟨id, ref, hphase⟩ : ∃ id ref, s.phase = .opening id ref := by
    have : s.phase.isOpening = true := hen
    cases hp : s.phase <;> simp_all [StreamPhase.isOpening]
  obtain ⟨-, -, hnone⟩ := h.opening id ref hphase
  simp only [step, streamOpenCb, hphase]
  cases accept with
  | true =>
    rw [if_pos rfl, emplace_ok (s := { s with phase := .idle }) hnone]
    exact ⟨_, rfl, .accept hphase hnone⟩
  | false => exact ⟨_, rfl, .reject hphase⟩

theorem streamCloseCb_change (hen : s.Enabled .streamCloseCb) :
    ∃ t, s.step .streamCloseCb = .ok t ∧ Change s .streamCloseCb t := by
  obtain ⟨id, notice, hphase⟩ : ∃ id notice, s.phase = .ending id notice := by
    have : s.phase.isEnding = true := hen
    cases hp : s.phase <;> simp_all [StreamPhase.isEnding]
  simp only [step, streamCloseCb, hphase]
  exact ⟨_, rfl, .ended hphase⟩

/-- An enabled step is one of the changes, and no assertion fails. -/
theorem step_change (h : s.Wf) (hen : s.Enabled op) :
    ∃ t, s.step op = .ok t ∧ Change s op t := by
  cases op with
  | queueIncomingStream =>
    refine ⟨s.queueIncomingStream, rfl, .queue ?_⟩
    split_ifs
    · exact .inl rfl
    · exact .inr rfl
  | makeStream => exact ⟨_, rfl, .makeStream⟩
  | openStream ref => exact ⟨_, rfl, .openStream⟩
  | streamOpened id => exact streamOpened_change h hen
  | streamOpenCb accept => exact streamOpenCb_change h hen
  | streamClosed id notice =>
    refine ⟨_, rfl, ?_⟩
    unfold streamClosed
    cases hget : s.streams id with
    | none => exact .unknown hget hen.1 hen.2.1 hen.2.2
    | some ref => exact .ending hget hen.1
  | streamCloseCb => exact streamCloseCb_change hen
  | startClosing => exact ⟨_, rfl, .startClosing⟩
  | clearQueue => exact ⟨_, rfl, .clearQueue⟩
  | dropStreams => exact ⟨_, rfl, .dropStreams hen⟩

@[simp] theorem noticed_streams (id : Int) (notice : Notice) :
    (s.noticed id notice).streams = s.streams := by cases notice <;> rfl

@[simp] theorem noticed_streamQueue (id : Int) (notice : Notice) :
    (s.noticed id notice).streamQueue = s.streamQueue := by cases notice <;> rfl

@[simp] theorem noticed_nextIncomingStreamId (id : Int) (notice : Notice) :
    (s.noticed id notice).nextIncomingStreamId = s.nextIncomingStreamId := by cases notice <;> rfl

@[simp] theorem noticed_opened (id : Int) (notice : Notice) :
    (s.noticed id notice).opened = s.opened := by cases notice <;> rfl

theorem Wf.noticed (h : s.Wf) (id : Int) (notice : Notice) : (s.noticed id notice).Wf := by
  cases notice with
  | reset => exact h
  | close => exact ⟨h.sides, h.remote, h.keys, h.queue, h.opening, h.ending, h.given, h.distinct⟩

theorem isRemote_advance (count : Nat) (id : Int) :
    IsRemote { s with nextIncomingStreamId := s.nextIncomingStreamId + 4, count := count } id ↔
      s.IsRemote id := by
  simp [IsRemote]

/-- Moving the counter on does not change which ids are remote. -/
theorem Wf.advance (h : s.Wf) (count : Nat) :
    Wf { s with nextIncomingStreamId := s.nextIncomingStreamId + 4, count := count } where
  sides := by simpa using h.sides
  remote id hid := (isRemote_advance count id).mpr (h.remote id hid)
  keys id ref hget := by rw [isRemote_advance]; exact h.keys id ref hget
  queue id ref hget := by
    obtain ⟨hremote, hlt, hmem⟩ := h.queue id ref hget
    exact ⟨(isRemote_advance count id).mpr hremote, by dsimp only; omega, hmem⟩
  opening id ref hphase := by rw [isRemote_advance]; exact h.opening id ref hphase
  ending id notice hphase := by rw [isRemote_advance]; exact h.ending id notice hphase
  given entry hmem := by
    have := h.given entry hmem
    dsimp only
    omega
  distinct := h.distinct

/-- More streams have been opened. -/
theorem Wf.open (h : s.Wf) {id : Int} (hremote : s.IsRemote id) :
    Wf { s with opened := s.opened ++ [id] } where
  sides := h.sides
  remote e he := by
    rcases List.mem_append.mp he with he | he
    · exact h.remote e he
    · rwa [List.mem_singleton.mp he]
  keys id ref hget := (h.keys id ref hget).imp_left fun hold =>
    ⟨hold.1, List.mem_append_left _ hold.2⟩
  queue := h.queue
  opening id ref hphase := by
    obtain ⟨hremote, hmem, hnone⟩ := h.opening id ref hphase
    exact ⟨hremote, List.mem_append_left _ hmem, hnone⟩
  ending id notice hphase := by
    obtain ⟨hsome, hmem⟩ := h.ending id notice hphase
    exact ⟨hsome, hmem.imp_left (List.mem_append_left _)⟩
  given := h.given
  distinct := h.distinct

/-- What every entry of a map satisfies, every entry still does after one has been put that does,
or one has been taken out. -/
theorem forall_entry_update {P : Int → Nat → Prop} {f : Int → Option Nat} {id : Int}
    {entry : Option Nat} (hf : ∀ id ref, f id = some ref → P id ref)
    (hentry : ∀ ref, entry = some ref → P id ref) :
    ∀ j ref, Function.update f id entry j = some ref → P j ref :=
  (Function.forall_update_iff f fun j entry => ∀ ref, entry = some ref → P j ref).mpr
    ⟨hentry, fun j _ => hf j⟩

theorem update_some_ne_none {f : Int → Option Nat} {id j : Int} {ref : Nat} (hj : f j ≠ none) :
    Function.update f id (some ref) j ≠ none := by
  by_cases hid : j = id
  · simp [hid]
  · rwa [Function.update_of_ne hid]

theorem Wf.queueNext (h : s.Wf) {queue : Int → Option Nat}
    (hqueue : queue = s.streamQueue ∨
      queue = Function.update s.streamQueue s.nextIncomingStreamId s.count) :
    Wf { s with
      nextIncomingStreamId := s.nextIncomingStreamId + 4
      count := s.count + 1
      given := s.given ++ [(s.nextIncomingStreamId, s.count)]
      streamQueue := queue } := by
  have hadv := h.advance (s.count + 1)
  have hold : ∀ id ref, s.streamQueue id = some ref → IsRemote { s with
      nextIncomingStreamId := s.nextIncomingStreamId + 4, count := s.count + 1 } id ∧
      id < s.nextIncomingStreamId + 4 ∧
      (id, ref) ∈ s.given ++ [(s.nextIncomingStreamId, s.count)] := by
    intro id ref hget
    obtain ⟨hremote, hlt, hmem⟩ := hadv.queue id ref hget
    exact ⟨hremote, hlt, List.mem_append_left _ hmem⟩
  refine { hadv with queue := ?_, given := ?_, distinct := ?_ }
  · rcases hqueue with rfl | rfl
    · exact hold
    · refine forall_entry_update hold fun ref href => ?_
      obtain rfl := Option.some.inj href
      exact ⟨(isRemote_advance (s.count + 1) _).mpr rfl, by dsimp only; omega, by simp⟩
  · intro entry hmem
    rcases List.mem_append.mp hmem with hmem | hmem
    · exact hadv.given entry hmem
    · rw [List.mem_singleton.mp hmem]
      dsimp only
      omega
  · have hnew : s.nextIncomingStreamId ∉ s.given.map Prod.fst := by
      intro hmem
      obtain ⟨entry, hgiven, heq⟩ := List.mem_map.mp hmem
      exact absurd (h.given entry hgiven) (by omega)
    rw [List.map_append]
    exact List.concat_eq_append ▸ h.distinct.concat hnew

/-- A stream of our own has the next of our ids. -/
theorem Wf.openLocal (h : s.Wf) (ref : Nat) :
    Wf { s with
      streams := Function.update s.streams s.nextStreamId ref
      nextStreamId := s.nextStreamId + 4 } := by
  have hsides := h.sides
  refine { h with sides := by simpa using h.sides, keys := ?_, opening := ?_, ending := ?_ }
  · refine forall_entry_update (fun id ref hget => ?_) fun _ _ => .inr ⟨by simp, by simp⟩
    refine (h.keys id ref hget).imp_right fun hlocal => ⟨by simpa using hlocal.1, ?_⟩
    exact hlocal.2.trans (by simp)
  · intro id ref hphase
    obtain ⟨hremote, hmem, hnone⟩ := h.opening id ref hphase
    have hne : id ≠ s.nextStreamId := by
      rintro rfl
      exact hsides hremote.symm
    exact ⟨hremote, hmem, (Function.update_of_ne hne ..).trans hnone⟩
  · intro id notice hphase
    obtain ⟨hsome, hmem⟩ := h.ending id notice hphase
    exact ⟨update_some_ne_none hsome, hmem⟩

/-- A stream that was waiting for its id is in use. -/
theorem Wf.openQueued (h : s.Wf) {id : Int} {ref : Nat} (hget : s.streamQueue id = some ref)
    (hnew : id ∉ s.opened) :
    Wf { s with
      streams := Function.update s.streams id ref
      streamQueue := Function.update s.streamQueue id none
      opened := s.opened ++ [id] } := by
  obtain ⟨hremote, -, -⟩ := h.queue id ref hget
  have hopen := h.open hremote
  refine { hopen with keys := ?_, queue := ?_, opening := ?_, ending := ?_ }
  · exact forall_entry_update hopen.keys fun _ _ => .inl ⟨hremote, by simp⟩
  · exact forall_entry_update h.queue (by simp)
  · intro j r hphase
    obtain ⟨hremote, hmem, hnone⟩ := h.opening j r hphase
    have hne : j ≠ id := by
      rintro rfl
      exact hnew hmem
    exact ⟨hremote, List.mem_append_left _ hmem, (Function.update_of_ne hne ..).trans hnone⟩
  · intro j notice hphase
    obtain ⟨hsome, hmem⟩ := hopen.ending j notice hphase
    exact ⟨update_some_ne_none hsome, hmem⟩

theorem Wf.change (h : s.Wf) (hc : Change s op t) : t.Wf := by
  cases hc with
  | queue hcases => exact h.queueNext hcases
  | makeStream => exact { h with }
  | openStream => exact h.openLocal _
  | openQueued hget hnone hnew => exact h.openQueued hget hnew
  | openNext hget hnew hnone _ =>
    have hremote := (isRemote_advance (s.count + 1) s.nextIncomingStreamId).mpr rfl
    have hadv := (h.advance (s.count + 1)).open hremote
    exact { hadv with opening := by grind [IsRemote], ending := by simp }
  | @openOther id hget hnew hnone _ hremote hne =>
    have hopen := h.open hremote
    exact { hopen with opening := by grind [IsRemote], ending := by simp }
  | accept hphase hnone =>
    obtain ⟨hremote, hmem, -⟩ := h.opening _ _ hphase
    refine { h with keys := ?_, opening := by simp, ending := by simp }
    exact forall_entry_update h.keys fun _ _ => .inl ⟨hremote, hmem⟩
  | reject hphase => exact { h with opening := by simp, ending := by simp }
  | unknown _ _ _ _ => exact h.noticed _ _
  | @ending id ref notice hget hphase =>
    refine { h with opening := by simp, ending := ?_ }
    intro j n heq
    cases heq
    refine ⟨by simp [hget], ?_⟩
    have hsides := h.sides
    rcases h.keys id ref hget with ⟨-, hmem⟩ | ⟨hlocal, -⟩
    · exact .inl hmem
    · exact .inr fun hremote => hsides (hremote.symm.trans hlocal)
  | ended hphase =>
    apply Wf.noticed
    refine { h with keys := ?_, opening := by simp, ending := by simp }
    exact forall_entry_update h.keys (by simp)
  | startClosing => exact { h with }
  | clearQueue => exact { h with queue := by simp }
  | dropStreams hphase =>
    exact { h with
      keys := by simp
      queue := by simp
      opening := by simp [hphase]
      ending := by simp [hphase] }

theorem wf_initial (h : s.Initial) : s.Wf := by
  rcases h with rfl | rfl <;> constructor <;> simp

theorem wf_inductive : machine.Inductive Wf where
  initial _ := wf_initial
  step _ _ h hen := by
    obtain ⟨t, ht, hc⟩ := step_change h hen
    exact ⟨t, ht, h.change hc⟩

end RemoteStreams

end Libquic
