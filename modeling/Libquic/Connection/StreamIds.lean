import Libquic.Connection.BackPointer
import Libquic.Connection.RemoteStreams

/-!
# Stream objects and stream ids

`StreamConn` runs each function of the connection with the callbacks inside it to the end, and
`RemoteStreams` takes a step at every call and return of a callback. They are one connection: on the
maps from ids to objects and on the counters, each operation of the first is a run of the second.

ngtcp2 reports each stream of the remote once, and reports nothing for a connection that has been
deleted.
-/
namespace Libquic

open Lib

namespace StreamConn

variable {x y : StreamConn} {s t u : RemoteStreams} {ref : Nat} {id : Int}

/-- The maps and the counters are the same. -/
structure Shows (x : StreamConn) (s : RemoteStreams) : Prop where
  streams : s.streams = fun id => OrderedMap.get? id x.streams
  streamQueue : s.streamQueue = fun id => OrderedMap.get? id x.streamQueue
  nextIncomingStreamId : s.nextIncomingStreamId = x.nextIncomingStreamId
  nextStreamId : s.nextStreamId = x.nextStreamId
  count : s.count = x.count
  closing : s.closing = x.ended

/-- A run from `s` to `t` that ends where it began, without a report from ngtcp2. -/
structure Called (s t : RemoteStreams) : Prop where
  steps : RemoteStreams.machine.Steps s t
  phase : t.phase = s.phase
  opened : t.opened = s.opened
  deleted : t.deleted = s.deleted

theorem Called.refl (s : RemoteStreams) : Called s s := ⟨.refl, rfl, rfl, rfl⟩

theorem Called.trans (h : Called s t) (h' : Called t u) : Called s u :=
  ⟨h.steps.trans h'.steps, h'.phase.trans h.phase, h'.opened.trans h.opened,
    h'.deleted.trans h.deleted⟩

/-- `y` shows what some calls lead to. -/
def Leads (s : RemoteStreams) (y : StreamConn) : Prop := ∃ t, Called s t ∧ y.Shows t

theorem Shows.leads (h : x.Shows s) : Leads s x := ⟨s, .refl s, h⟩

theorem Called.leads (h : Called s t) (hy : Leads t y) : Leads s y := by
  obtain ⟨u, hcalled, hshows⟩ := hy
  exact ⟨u, h.trans hcalled, hshows⟩

/-- Application code makes calls and nothing else. -/
def Calling (f : StreamConn → StreamConn) : Prop := ∀ x s, Shows x s → Leads s (f x)

theorem Leads.map {f : StreamConn → StreamConn} (h : Leads s x) (hf : Calling f) :
    Leads s (f x) := by
  obtain ⟨t, hcalled, hshows⟩ := h
  exact hcalled.leads (hf x t hshows)

/-! ## The functions that run callbacks -/

theorem shows_insert {streams : Int → Option Nat} {entries : List (Int × Nat)}
    (h : streams = fun id => OrderedMap.get? id entries) (key : Int) (ref : Nat) :
    Function.update streams key (some ref) =
      fun id => OrderedMap.get? id (OrderedMap.insert key ref entries) := by
  funext id
  rw [OrderedMap.get?_insert, Function.update_apply, h]

theorem shows_filter {streams : Int → Option Nat} {entries : List (Int × Nat)}
    (h : streams = fun id => OrderedMap.get? id entries) (key : Int) :
    Function.update streams key none =
      fun id => OrderedMap.get? id (entries.filter (·.1 ≠ key)) := by
  funext id
  rw [OrderedMap.get?_filter, Function.update_apply, h]

theorem calling_close (ref : Nat) : Calling (·.close ref) :=
  fun _ _ h => Shows.leads { h with }

theorem calling_closed {callback : StreamConn → StreamConn} (hcb : Calling callback) (ref : Nat) :
    Calling (closed callback ref) := by
  intro x s h
  have hcalled : Shows (x.modify ref fun o => { o with closedCalls := o.closedCalls + 1 }) s :=
    { h with }
  obtain ⟨t, hsteps, hshows⟩ := hcb _ s hcalled
  unfold closed
  dsimp only
  split
  · exact ⟨t, hsteps, { hshows with }⟩
  · exact ⟨t, hsteps, { hshows with }⟩

theorem calling_streamExecuteClose {callback : StreamConn → StreamConn} (hcb : Calling callback)
    (ref : Nat) : Calling (streamExecuteClose callback ref) := by
  intro x s h
  unfold streamExecuteClose
  dsimp only
  split_ifs
  · exact Shows.leads { h with }
  · exact Shows.leads { h with }
  · exact calling_closed hcb ref _ s { h with }
  · exact calling_closed hcb ref _ s { h with }

/-- Making a stream object on a connection, which `t` shows as soon as it is made and, if the
connection has not ended, in its place. -/
theorem newStream_leads {callback : StreamConn → StreamConn} (hcb : Calling callback)
    {kind : StreamKind} {onClose : Script} {place : Nat → StreamConn → StreamConn}
    (hmade : x.ended = true → ∃ t, Called s t ∧ Shows { x with
      count := x.count + 1
      objs := Function.update x.objs x.count { kind := kind, onClose := onClose } } t)
    (hplaced : x.ended = false → Leads s (place x.count { x with
      count := x.count + 1
      objs := Function.update x.objs x.count { kind := kind, onClose := onClose } })) :
    Leads s (x.newStream callback kind onClose place) := by
  unfold newStream
  dsimp only
  have hkept {y : StreamConn} {calls : List OpenCall} (h : Leads s y) :
      Leads s { y with calls := calls } := by
    obtain ⟨t, hcalled, hshows⟩ := h
    exact ⟨t, hcalled, { hshows with }⟩
  apply hkept
  split_ifs with hended
  · obtain ⟨t, hcalled, hshows⟩ := hmade hended
    exact hcalled.leads (calling_streamExecuteClose hcb _ _ t hshows)
  · exact hplaced (Bool.eq_false_iff.mpr hended)

/-- An object has been made for `open_stream`. -/
theorem Shows.makeStream (h : x.Shows s) (kind : StreamKind) (onClose : Script) :
    Called s { s with count := s.count + 1 } ∧ Shows { x with
      count := x.count + 1
      objs := Function.update x.objs x.count { kind := kind, onClose := onClose } }
      { s with count := s.count + 1 } :=
  ⟨⟨.tail (i := .makeStream) .refl trivial rfl, rfl, rfl, rfl⟩,
    { h with count := congrArg (· + 1) h.count }⟩

/-- A stream gets its id. -/
theorem Shows.openStream (ref : Nat) (h : x.Shows s) (hended : x.ended = false)
    (hlt : ref < x.count) (pending : List Nat) (bidiLeft : Nat) :
    Called s (s.openStream ref) ∧ Shows { x with
      streams := OrderedMap.insert x.nextStreamId ref x.streams
      pendingStreams := pending
      nextStreamId := x.nextStreamId + 4
      bidiLeft := bidiLeft } (s.openStream ref) := by
  refine ⟨⟨.tail (i := .openStream ref) .refl ⟨h.closing.trans hended, h.count ▸ hlt⟩ rfl, rfl, rfl,
    rfl⟩, { h with
      streams := ?_
      nextStreamId := congrArg (· + 4) h.nextStreamId }⟩
  exact h.nextStreamId ▸ shows_insert h.streams s.nextStreamId ref

theorem calling_openStream {callback : StreamConn → StreamConn} (hcb : Calling callback)
    (kind : StreamKind) (onClose : Script) : Calling (·.openStream callback kind onClose) := by
  intro x s h
  obtain ⟨hcalled, hmade⟩ := h.makeStream kind onClose
  refine newStream_leads hcb (fun _ => ⟨_, hcalled, hmade⟩) fun hended => hcalled.leads ?_
  split_ifs
  · exact Shows.leads { hmade with }
  · obtain ⟨hcalled', hopened⟩ := hmade.openStream x.count hended
      (Nat.lt_succ_self x.count) x.pendingStreams (x.bidiLeft - 1)
    exact hcalled'.leads hopened.leads

theorem calling_queueIncomingStream {callback : StreamConn → StreamConn} (hcb : Calling callback)
    (kind : StreamKind) (onClose : Script) :
    Calling (·.queueIncomingStream callback kind onClose) := by
  intro x s h
  have hcalled : Called s s.queueIncomingStream :=
    ⟨.tail (i := .queueIncomingStream) .refl trivial rfl, rfl, rfl, rfl⟩
  have hnext : s.nextIncomingStreamId + 4 = x.nextIncomingStreamId + 4 :=
    congrArg (· + 4) h.nextIncomingStreamId
  simp only [queueIncomingStream]
  refine newStream_leads hcb (fun hended => ⟨_, hcalled, ?_⟩) fun hended => ⟨_, hcalled, ?_⟩
  · have hclosing : s.closing = true := h.closing.trans hended
    exact { h with
      streamQueue := by
        simp only [RemoteStreams.queueIncomingStream, hclosing, if_true]
        exact h.streamQueue
      nextIncomingStreamId := hnext
      count := congrArg (· + 1) h.count }
  · have hclosing : ¬s.closing = true := Bool.eq_false_iff.mp (h.closing.trans hended)
    exact { h with
      streamQueue := by
        simp only [RemoteStreams.queueIncomingStream, if_neg hclosing, h.count]
        exact h.nextIncomingStreamId ▸ shows_insert h.streamQueue s.nextIncomingStreamId x.count
      nextIncomingStreamId := hnext
      count := congrArg (· + 1) h.count }

theorem calling_run (script : Script) : Calling (run script) := by
  induction script with
  | done => exact fun _ _ h => h.leads
  | openStream kind onClose next ihClose ihNext =>
    exact fun x s h => (calling_openStream ihClose kind onClose x s h).map ihNext
  | queueIncomingStream kind onClose next ihClose ihNext =>
    exact fun x s h => (calling_queueIncomingStream ihClose kind onClose x s h).map ihNext
  | closeStream ref next ih =>
    intro x s h
    unfold run
    split_ifs
    · exact (calling_close ref x s h).map ih
    · exact ih x s h

theorem calling_closeStored (ref : Nat) : Calling (·.closeStored ref) :=
  fun x s h => calling_streamExecuteClose (calling_run _) ref x s h

/-! ## The end of streams -/

theorem streamClosed_leads (h : x.Shows s) (hwf : s.Wf) (hidle : s.phase = .idle)
    (hdeleted : s.deleted = false) (id : Int) : Leads s (x.streamClosed id) := by
  unfold streamClosed
  cases hfind : x.streams.find? (·.1 = id) with
  | none => exact h.leads
  | some entry =>
    obtain ⟨key, ref⟩ := entry
    have hget : s.streams id = some ref := by simp [h.streams, OrderedMap.get?, hfind]
    have hknown : id ∈ s.opened ∨ ¬s.IsRemote id := by
      rcases hwf.keys id ref hget with ⟨-, hmem⟩ | ⟨hlocal, -⟩
      · exact .inl hmem
      · exact .inr fun hremote => hwf.sides (hremote.symm.trans hlocal)
    have hstart : RemoteStreams.machine.step s (.streamClosed id .reset) =
        .ok { s with phase := .ending id .reset } := by
      simp only [RemoteStreams.machine, RemoteStreams.step, RemoteStreams.streamClosed, hget]
    have hending : x.Shows { s with phase := .ending id .reset } := { h with }
    obtain ⟨t, hcalled, hshows⟩ := calling_closeStored ref x _ hending
    have hend : RemoteStreams.machine.step t .streamCloseCb = .ok { t with
        streams := Function.update t.streams id none
        extended := if t.IsRemote id then t.extended ++ [id] else t.extended
        phase := .idle } := by
      simp only [RemoteStreams.machine, RemoteStreams.step, RemoteStreams.streamCloseCb,
        hcalled.phase, RemoteStreams.noticed]
    have hclosing : RemoteStreams.machine.enabled t .streamCloseCb := by
      change t.phase.isEnding = true
      rw [hcalled.phase]
      rfl
    refine ⟨_, ⟨.head (i := .streamClosed id .reset) ⟨hidle, hdeleted, hknown⟩ hstart
      (.tail hcalled.steps hclosing hend), hidle.symm, hcalled.opened, hcalled.deleted⟩, ?_⟩
    exact { hshows with streams := shows_filter hshows.streams id }

theorem closeQueued_leads {fuel i : Nat} (h : x.Shows s) (hy : closeQueued fuel i x = .ok y) :
    Leads s y := by
  induction fuel generalizing x s i with
  | zero => cases hy
  | succ fuel ih =>
    unfold closeQueued at hy
    split at hy
    next =>
      cases hy
      exact h.leads
    next key ref _ =>
      obtain ⟨t, hcalled, hshows⟩ := calling_closeStored ref x s h
      exact hcalled.leads (ih hshows hy)

theorem closePending_leads {refs : List Nat} (h : x.Shows s) (hy : closePending refs x = .ok y) :
    Leads s y := by
  induction refs generalizing x s with
  | nil =>
    cases hy
    exact h.leads
  | cons ref rest ih =>
    simp only [closePending] at hy
    split_ifs at hy
    obtain ⟨t, hcalled, hshows⟩ := calling_closeStored ref x s h
    exact hcalled.leads (ih hshows hy)

theorem closeStreams_leads {fuel : Nat} (h : x.Shows s) (hs : RemoteStreams.machine.Reachable s)
    (hidle : s.phase = .idle) (hdeleted : s.deleted = false)
    (hy : closeStreams fuel x = .ok y) : Leads s y := by
  induction fuel generalizing x s with
  | zero => cases hy
  | succ fuel ih =>
    unfold closeStreams at hy
    split at hy
    next =>
      cases hy
      exact h.leads
    next id _ _ _ =>
      have hwf := RemoteStreams.wf_inductive.reachable hs
      obtain ⟨t, hcalled, hshows⟩ := streamClosed_leads h hwf hidle hdeleted id
      exact hcalled.leads (ih hshows (hs.steps hcalled.steps) (hcalled.phase.trans hidle)
        (hcalled.deleted.trans hdeleted) hy)

theorem closeAllStreams_leads (h : x.Shows s) (hs : RemoteStreams.machine.Reachable s)
    (hidle : s.phase = .idle) (hdeleted : s.deleted = false) (hy : x.closeAllStreams = .ok y) :
    Leads s y := by
  obtain ⟨a, ha, hy⟩ := bind_ok hy
  obtain ⟨b, hb, hy⟩ := bind_ok hy
  obtain ⟨t, hcalled, hshows⟩ := closeQueued_leads h ha
  have hclear : Called t { t with streamQueue := fun _ => none } :=
    ⟨.tail (i := .clearQueue) .refl (hcalled.phase.trans hidle) rfl, rfl, rfl, rfl⟩
  have hcleared : Shows { a with streamQueue := [] } { t with streamQueue := fun _ => none } :=
    { hshows with streamQueue := by simp [OrderedMap.get?] }
  obtain ⟨u, hcalled', hshows'⟩ := closePending_leads hcleared hb
  have hall := (hcalled.trans hclear).trans hcalled'
  have hpending : Shows { b with pendingStreams := [] } u := { hshows' with }
  exact hall.leads (closeStreams_leads hpending (hs.steps hall.steps) (hall.phase.trans hidle)
    (hall.deleted.trans hdeleted) hy)

theorem checkPendingStreams_leads {available : Nat} (h : x.Shows s) (hended : x.ended = false)
    (hlt : ∀ ref ∈ x.pendingStreams, ref < x.count) :
    Leads s (checkPendingStreams available x) := by
  induction available generalizing x s with
  | zero => exact h.leads
  | succ available ih =>
    unfold checkPendingStreams
    split
    next => exact h.leads
    next ref rest hpending =>
      split_ifs
      · exact h.leads
      · obtain ⟨hcalled, hopened⟩ := h.openStream ref hended
          (hlt ref (by simp [hpending])) rest (x.bidiLeft - 1)
        exact hcalled.leads (ih hopened hended fun r hr => hlt r (by simp [hpending, hr]))

/-! ## A stream of the remote -/

/-- `stream_open_cb` returns. -/
theorem Shows.streamOpenCb (h : x.Shows s) (hwf : s.Wf) {ref : Nat}
    (hphase : s.phase = .opening id ref) (accept : Bool) :
    ∃ t, RemoteStreams.machine.Steps s t ∧
      (if accept then { x with streams := OrderedMap.insert id ref x.streams }
        else { x.close ref with strays := x.strays ++ [ref] }).Shows t ∧
      t.phase = .idle ∧ t.opened = s.opened ∧ t.deleted = s.deleted := by
  have hopen : RemoteStreams.machine.enabled s (.streamOpenCb accept) := by
    change s.phase.isOpening = true
    rw [hphase]
    rfl
  cases accept with
  | true =>
    have hreturn : RemoteStreams.machine.step s (.streamOpenCb true) = .ok { s with
        streams := Function.update s.streams id ref
        phase := .idle } := by
      simp only [RemoteStreams.machine, RemoteStreams.step, RemoteStreams.streamOpenCb, hphase,
        if_true]
      exact RemoteStreams.emplace_ok (s := { s with phase := .idle })
        (hwf.opening id ref hphase).2.2
    exact ⟨_, .tail .refl hopen hreturn, { h with streams := shows_insert h.streams id ref }, rfl,
      rfl, rfl⟩
  | false =>
    have hreturn : RemoteStreams.machine.step s (.streamOpenCb false) = .ok { s with
        phase := .idle
        rejected := s.rejected ++ [id] } := by
      simp only [RemoteStreams.machine, RemoteStreams.step, RemoteStreams.streamOpenCb, hphase,
        Bool.false_eq_true, if_false]
    exact ⟨_, .tail .refl hopen hreturn, { h with }, rfl, rfl, rfl⟩

theorem streamOpened_leads {kind : StreamKind} {onClose openCb : Script} {accept : Bool}
    (h : x.Shows s) (hs : RemoteStreams.machine.Reachable s)
    (hen : RemoteStreams.machine.enabled s (.streamOpened id)) :
    ∃ t, RemoteStreams.machine.Steps s t ∧ (x.streamOpened id kind onClose openCb accept).Shows t ∧
      t.phase = .idle ∧ t.opened = s.opened ++ [id] ∧ t.deleted = s.deleted := by
  have hwf := RemoteStreams.wf_inductive.reachable hs
  have hreport := hen
  obtain ⟨hidle, -, hremote, hnew⟩ := hreport
  unfold streamOpened
  cases hfind : x.streamQueue.find? (·.1 = id) with
  | some entry =>
    obtain ⟨key, ref⟩ := entry
    have hqueue : s.streamQueue id = some ref := by simp [h.streamQueue, OrderedMap.get?, hfind]
    have hstep : RemoteStreams.machine.step s (.streamOpened id) = .ok { s with
        streams := Function.update s.streams id ref
        streamQueue := Function.update s.streamQueue id none
        opened := s.opened ++ [id] } := by
      simp only [RemoteStreams.machine, RemoteStreams.step, RemoteStreams.streamOpened, hqueue,
        RemoteStreams.emplace_ok (hwf.streams_eq_none hremote hnew), ok_bind]
    refine ⟨_, .tail .refl hen hstep, ?_, hidle, rfl, rfl⟩
    exact { h with
      streams := shows_insert h.streams id ref
      streamQueue := shows_filter h.streamQueue id }
  | none =>
    have hqueue : s.streamQueue id = none := by simp [h.streamQueue, OrderedMap.get?, hfind]
    have hstep : RemoteStreams.machine.step s (.streamOpened id) = .ok { s with
        nextIncomingStreamId :=
          if id = s.nextIncomingStreamId then id + 4 else s.nextIncomingStreamId
        count := s.count + 1
        phase := .opening id s.count
        opened := s.opened ++ [id] } := by
      simp only [RemoteStreams.machine, RemoteStreams.step, RemoteStreams.streamOpened, hqueue]
    have hannounced : Shows { x with
        nextIncomingStreamId :=
          if id = x.nextIncomingStreamId then id + 4 else x.nextIncomingStreamId
        count := x.count + 1
        objs := Function.update x.objs x.count { kind := kind, onClose := onClose } } { s with
          nextIncomingStreamId :=
            if id = s.nextIncomingStreamId then id + 4 else s.nextIncomingStreamId
          count := s.count + 1
          phase := .opening id s.count
          opened := s.opened ++ [id] } :=
      { h with
        nextIncomingStreamId := by simp only [h.nextIncomingStreamId]
        count := congrArg (· + 1) h.count }
    obtain ⟨t, hcalled, hshows⟩ := calling_run openCb _ _ hannounced
    have hsteps : RemoteStreams.machine.Steps s t := .head hen hstep hcalled.steps
    have hphase : t.phase = .opening id x.count := hcalled.phase.trans (by rw [h.count])
    have hwft := RemoteStreams.wf_inductive.reachable (hs.steps hsteps)
    obtain ⟨u, hreturn, hshows', hidle', hopened, hdeleted⟩ :=
      hshows.streamOpenCb hwft hphase accept
    exact ⟨u, hsteps.trans hreturn, hshows', hidle', hopened.trans hcalled.opened,
      hdeleted.trans hcalled.deleted⟩

end StreamConn

/-! ## Reports -/

/-- A connection with what ngtcp2 has reported to it. -/
structure ReportedConn where
  conn : StreamConn
  /-- The ids of the streams reported as opened. -/
  opened : List Int := []
  deleted : Bool := false

namespace ReportedConn

/-- Nothing is reported of a connection that is deleted, and no more streams are allowed to one that
has ended. A stream is reported once. -/
def Enabled (r : ReportedConn) : StreamConn.Op → Prop
  | .streamOpened id kind onClose openCb accept =>
    r.conn.Enabled (.streamOpened id kind onClose openCb accept) ∧ r.deleted = false ∧
      id ∉ r.opened
  | .streamClosed _ => r.deleted = false
  | .closeAllStreams _ => r.deleted = false
  | .extendMaxStreams _ => r.conn.ended = false
  | op => r.conn.Enabled op

/-- The report goes to `stream_opened`, or `delete_connection` runs. -/
def note (r : ReportedConn) : StreamConn.Op → ReportedConn
  | .streamOpened id .. => { r with opened := r.opened ++ [id] }
  | .deleteConnection => { r with deleted := true }
  | _ => r

def step (r : ReportedConn) (op : StreamConn.Op) : Except Fault ReportedConn := do
  let conn ← r.conn.step op
  return { r.note op with conn := conn }

def machine : Machine ReportedConn StreamConn.Op Fault where
  initial r := StreamConn.machine.initial r.conn ∧ r.opened = [] ∧ r.deleted = false
  enabled := Enabled
  step := step

variable {r r' : ReportedConn} {s : RemoteStreams}

theorem conn_reachable (h : machine.Reachable r) : StreamConn.machine.Reachable r.conn := by
  induction h with
  | initial hinit => exact .initial hinit.1
  | @step r r' op _ hen hstep ih =>
    obtain ⟨conn, hconn, hstep⟩ := bind_ok hstep
    cases hstep
    refine ih.step (i := op) ?_ hconn
    cases op with
    | streamOpened => exact hen.1
    | close => exact hen
    | _ => trivial

/-- The two are the same connection, outside of all callbacks. -/
structure Matches (r : ReportedConn) (s : RemoteStreams) : Prop where
  shows : r.conn.Shows s
  idle : s.phase = .idle
  opened : s.opened = r.opened
  deleted : s.deleted = r.deleted

theorem Matches.leads (h : Matches r s) {conn : StreamConn} (hleads : StreamConn.Leads s conn) :
    ∃ t, RemoteStreams.machine.Steps s t ∧ Matches { r with conn := conn } t := by
  obtain ⟨t, hcalled, hshows⟩ := hleads
  exact ⟨t, hcalled.steps, hshows, hcalled.phase.trans h.idle, hcalled.opened.trans h.opened,
    hcalled.deleted.trans h.deleted⟩

theorem marked_leads {x : StreamConn} (h : x.Shows s) (ending : StreamConn.Ending) :
    StreamConn.Leads s (x.marked ending) := by
  have hcalled : StreamConn.Called s { s with closing := true } :=
    ⟨.tail (i := .startClosing) .refl trivial rfl, rfl, rfl, rfl⟩
  cases ending with
  | close => exact ⟨_, hcalled, { h with closing := rfl }⟩
  | drain => exact ⟨_, hcalled, { h with closing := by simp [StreamConn.marked, StreamConn.ended] }⟩
  | drop => exact h.leads

/-- Each operation of the connection, with its callbacks, is a run of the small steps. -/
theorem simulation_remoteStreams :
    Machine.Simulation machine RemoteStreams.machine Matches where
  initial := by
    rintro ⟨conn, opened, deleted⟩ ⟨hinit, rfl, rfl⟩
    rcases hinit with ⟨bidiLeft, rfl⟩ | ⟨bidiLeft, rfl⟩
    · exact ⟨{}, .inl rfl, ⟨rfl, rfl, rfl, rfl, rfl, rfl⟩, rfl, rfl, rfl⟩
    · exact ⟨{ nextIncomingStreamId := 0, nextStreamId := 1 }, .inr rfl,
        ⟨rfl, rfl, rfl, rfl, rfl, rfl⟩, rfl, rfl, rfl⟩
  step := by
    intro r op r' s hr hs h hen hstep
    obtain ⟨conn, hconn, hstep⟩ := bind_ok hstep
    cases hstep
    have hwf := (StreamConn.reachable_inv (conn_reachable hr)).wf
    cases op with
    | openStream kind onClose =>
      cases hconn
      exact h.leads (StreamConn.calling_openStream (StreamConn.calling_run onClose) kind onClose _ s
        h.shows)
    | queueIncomingStream kind onClose =>
      cases hconn
      exact h.leads (StreamConn.calling_queueIncomingStream (StreamConn.calling_run onClose) kind
        onClose _ s h.shows)
    | streamOpened id kind onClose openCb accept =>
      cases hconn
      obtain ⟨⟨hside, -⟩, hdeleted, hnew⟩ := hen
      have hreport : RemoteStreams.machine.enabled s (.streamOpened id) :=
        ⟨h.idle, h.deleted.trans hdeleted, hside.trans (by rw [h.shows.nextIncomingStreamId]),
          h.opened ▸ hnew⟩
      obtain ⟨t, hsteps, hshows, hidle, hopened, hdeleted'⟩ :=
        StreamConn.streamOpened_leads h.shows hs hreport
      exact ⟨t, hsteps, hshows, hidle, hopened.trans (by rw [h.opened]; rfl),
        hdeleted'.trans h.deleted⟩
    | close ref =>
      cases hconn
      exact h.leads (StreamConn.calling_close ref _ s h.shows)
    | streamClosed id =>
      cases hconn
      exact h.leads (StreamConn.streamClosed_leads h.shows (RemoteStreams.wf_inductive.reachable hs)
        h.idle (h.deleted.trans hen) id)
    | extendMaxStreams more =>
      cases hconn
      have hmore : StreamConn.Shows { r.conn with bidiLeft := r.conn.bidiLeft + more } s :=
        { h.shows with }
      refine h.leads (StreamConn.checkPendingStreams_leads hmore hen fun ref hmem => hwf.lt ref ?_)
      exact List.mem_append_right _ hmem
    | closeAllStreams ending =>
      obtain ⟨t, hcalled, hshows⟩ := marked_leads h.shows ending
      refine h.leads (hcalled.leads (StreamConn.closeAllStreams_leads hshows
        (hs.steps hcalled.steps) (hcalled.phase.trans h.idle) ?_ hconn))
      exact hcalled.deleted.trans (h.deleted.trans hen)
    | deleteConnection =>
      cases hconn
      refine ⟨_, .tail (i := .dropStreams) .refl h.idle rfl, ?_, h.idle, h.opened, rfl⟩
      exact { h.shows with
        streams := by
          funext id
          simp [StreamConn.deleteConnection, StreamConn.dropStreams, OrderedMap.get?]
        streamQueue := by
          funext id
          simp [StreamConn.deleteConnection, StreamConn.dropStreams, OrderedMap.get?]
        closing := by
          simp [StreamConn.deleteConnection, StreamConn.dropStreams, StreamConn.ended] }

/-- A stream that the connection has under an id was reported by ngtcp2, or the id is one of those
that it gave to streams opened here. -/
theorem mem_opened_of_stream (h : machine.Reachable r) {id : Int} {ref : Nat}
    (hget : OrderedMap.get? id r.conn.streams = some ref) :
    id ∈ r.opened ∨ id % 4 = r.conn.nextStreamId % 4 ∧ id < r.conn.nextStreamId := by
  obtain ⟨s, hs, hmatches⟩ := simulation_remoteStreams.reachable h
  have hstream : s.streams id = some ref := (congrFun hmatches.shows.streams id).trans hget
  rw [← hmatches.opened, ← hmatches.shows.nextStreamId]
  exact ((RemoteStreams.wf_inductive.reachable hs).keys id ref hstream).imp_left And.right

end ReportedConn

end Libquic
