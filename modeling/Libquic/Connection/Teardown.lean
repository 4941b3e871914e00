import Libquic.Connection.BackPointer

/-!
# Ending a connection

The close hooks against any behaviour of the close callbacks: those of the streams, which
`close_all_streams` runs, and then that of the connection. A connection that is marked as closing
or draining refuses the streams that callbacks make. `_drop_connection` does not mark the
connection, so there they are kept.

`Stream::closed` runs once for every stream that is not a `BTRequestStream`, which overrides it.
-/
namespace Libquic

open Lib

/-- The script makes no `BTRequestStream`. -/
def Script.plain : Script → Bool
  | .done => true
  | .openStream kind onClose next => kind == .stream && onClose.plain && next.plain
  | .queueIncomingStream kind onClose next => kind == .stream && onClose.plain && next.plain
  | .closeStream _ next => next.plain

namespace StreamConn

variable {x y z start : StreamConn} {r ref : Nat} {D : Finset Nat}

/-- The close callback of each stream does what `scripts` says. -/
def behave (x : StreamConn) (scripts : Nat → Script) : StreamConn :=
  { x with objs := fun r => { x.objs r with onClose := scripts r } }

/-- The stream is closed, and the virtual function `closed` was called once, or the application had
closed the stream. -/
def Finished (o : StreamObj) : Prop :=
  o.isClosing = true ∧ (o.closedCalls = 1 ∨ o.closedCalls = 0 ∧ o.appClosed = true)

/-- `Stream::closed` was run once, or the application had closed the stream. -/
def ClosedOnce (o : StreamObj) : Prop :=
  o.closedRuns = 1 ∨ o.closedRuns = 0 ∧ o.appClosed = true

/-- What ending a connection in state `x` is meant to lead to. -/
structure TornDown (x y : StreamConn) : Prop where
  calls : ∀ call ∈ y.calls.drop x.calls.length, call.closed = true ∧ call.stored = false
  streams : y.streams = []
  queue : y.streamQueue = []
  pending : y.pendingStreams = []
  finished : ∀ r, r ∈ x.stored ∨ x.count ≤ r ∧ r < y.count → Finished (y.objs r)

theorem Finished.closedOnce {o : StreamObj} (h : Finished o) (hkind : o.kind = .stream) :
    ClosedOnce o := by
  have hruns : o.closedRuns = o.closedCalls := by rw [StreamObj.closedRuns, hkind]
  rw [ClosedOnce, hruns]
  exact h.2

theorem behave_inv {scripts : Nat → Script} (h : Inv ∅ ∅ x) : Inv ∅ ∅ (x.behave scripts) where
  wf := h.wf.congr ⟨rfl, rfl, rfl⟩ rfl rfl le_rfl h.wf.strays
  lt := h.lt
  objs r hr hE := ⟨(h.objs r hr hE).conn, (h.objs r hr hE).strays, (h.objs r hr hE).fresh⟩

theorem Finished.kept {o p : StreamObj} (h : Finished o) (hop : Kept o p) : Finished p := by
  rw [hop.eq h.1]
  exact h

theorem finished_objClosed {o : StreamObj} (hcalls : o.closedCalls = 0)
    (hclosing : o.isClosing = o.appClosed) : Finished (objClosed o) := by
  unfold objClosed
  by_cases h : o.isClosing = true
  · rw [if_pos h]
    exact ⟨h, .inr ⟨hcalls, hclosing ▸ h⟩⟩
  · rw [if_neg h]
    exact ⟨rfl, .inl (by simp [hcalls])⟩

/-! ## New streams are refused -/

/-- From `start` on nothing was added to the containers, and streams in `D` are closed. -/
structure Quiet (start : StreamConn) (D : Finset Nat) (x : StreamConn) : Prop where
  inv : Inv D ∅ x
  ended : x.ended = start.ended
  count : start.count ≤ x.count
  quiet : x.ended = true ∨ ∀ r ∈ x.stored, (x.objs r).isClosing = true
  left : ∀ r ∈ start.stored, r ∈ D ∨ r ∈ x.stored
  finished : ∀ r, r ∈ D ∨ start.count ≤ r ∧ r < x.count → Finished (x.objs r)
  calls : ∃ made, x.calls = start.calls ++ made ∧
    ∀ call ∈ made, call.closed = true ∧ call.stored = false

theorem Quiet.sameStored (h : Quiet start D x) (hr : ref ∈ x.stored) :
    SameStored x (x.closeStored ref) := by
  have hc := closeStored_closes h.inv.wf (h.inv.wf.lt ref hr)
  rcases h.quiet with hended | hclosing
  · exact (hc.refused hended).1
  · rw [hc.silent (hclosing ref hr)]
    exact ⟨rfl, rfl, rfl⟩

theorem Quiet.closeStored (h : Quiet start D x) (hr : ref ∈ x.stored) (hD : ref ∉ D) :
    Quiet start (insert ref D) (x.closeStored ref) := by
  have hlt := h.inv.wf.lt ref hr
  have hc := closeStored_closes h.inv.wf hlt
  have hsame := h.sameStored hr
  have hself : Finished ((x.closeStored ref).objs ref) := by
    obtain ⟨hruns, hclosing⟩ := (h.inv.objs ref hlt (by simp)).fresh hr hD
    rw [hc.self]
    exact finished_objClosed hruns hclosing
  have hold (r : Nat) (hrx : r < x.count) (hfin : Finished (x.objs r)) :
      Finished ((x.closeStored ref).objs r) := by
    by_cases hne : r = ref
    · exact hne ▸ hself
    · exact hfin.kept (hc.old r hrx hne)
  refine ⟨h.inv.closeStored hr hD, hc.ended.trans h.ended, h.count.trans hc.count, ?_, ?_, ?_, ?_⟩
  · rw [hc.ended, hsame.stored]
    refine h.quiet.imp_right fun hclosing r hrx => ?_
    by_cases hne : r = ref
    · exact hne ▸ hself.1
    · rw [(hc.old r (h.inv.wf.lt r hrx) hne).eq (hclosing r hrx)]
      exact hclosing r hrx
  · intro r hrs
    rw [hsame.stored]
    exact (h.left r hrs).imp_left (Finset.mem_insert_of_mem ·)
  · rintro r (hin | ⟨hle, hrlt⟩)
    · rcases Finset.mem_insert.mp hin with rfl | hin
      · exact hself
      · exact hold r (h.inv.lt r hin) (h.finished r (.inl hin))
    · by_cases hrx : r < x.count
      · exact hold r hrx (h.finished r (.inr ⟨hle, hrx⟩))
      · rcases h.quiet with hended | hclosing
        · have hrefused := (hc.refused hended).2 r (Nat.le_of_not_lt hrx) hrlt
          exact ⟨hrefused.closing, .inl hrefused.calls⟩
        · rw [hc.silent (hclosing ref hr)] at hrlt
          exact absurd hrlt hrx
  · obtain ⟨made, heq, hmade⟩ := h.calls
    rcases h.quiet with hended | hclosing
    · obtain ⟨made', heq', hmade'⟩ := hc.calls
      refine ⟨made ++ made', by rw [heq', heq, List.append_assoc], fun call hcall => ?_⟩
      rcases List.mem_append.mp hcall with hcall | hcall
      · exact hmade call hcall
      · exact (hmade' call hcall).1 hended
    · rw [hc.silent (hclosing ref hr)]
      exact ⟨made, heq, hmade⟩

theorem Leaves.left_or {known : List Nat} (h : Leaves x y D)
    (hknown : ∀ r ∈ known, r ∈ D ∨ r ∈ x.stored) : ∀ r ∈ known, r ∈ D ∨ r ∈ y.stored := by
  intro r hr
  by_cases hD : r ∈ D
  · exact .inl hD
  · exact .inr (h.left r ((hknown r hr).resolve_left hD) hD)

theorem Quiet.leave (h : Quiet start D x) (hxy : Leaves x y D) : Quiet start D y := by
  have hinv := h.inv.leave hxy
  have hleft := hxy.left_or h.left
  have hquiet := h.quiet.imp_right fun hclosing r hr => hclosing r (hxy.stored.subset hr)
  obtain ⟨-, hended, hcount, -, -, hfinished, hcalls⟩ := h
  rw [hxy.same] at hinv hleft hquiet ⊢
  exact ⟨hinv, hended, hcount, hquiet, hleft, hfinished, hcalls⟩

theorem Quiet.tornDown (h : Quiet start D y) (hempty : y.stored = []) : TornDown start y := by
  obtain ⟨made, heq, hmade⟩ := h.calls
  have hnil := hempty
  simp only [stored, List.append_eq_nil_iff, List.map_eq_nil_iff] at hnil
  refine ⟨?_, hnil.1.1, hnil.1.2, hnil.2, fun r hr => h.finished r (hr.imp_left fun hin => ?_)⟩
  · rw [heq, List.drop_left]
    exact hmade
  · exact (h.left r hin).resolve_right (by simp [hempty])

theorem closeAllStreams_quiet (h : Inv ∅ ∅ x)
    (hquiet : x.ended = true ∨ ∀ r ∈ x.stored, (x.objs r).isClosing = true) :
    ∃ y D, x.closeAllStreams = .ok y ∧ Quiet x D y ∧ y.stored = [] := by
  have hstart : Quiet x ∅ x := by
    refine ⟨h, rfl, le_rfl, hquiet, fun r hr => .inr hr, fun r hr => ?_, [], by simp, by simp⟩
    rcases hr with hr | ⟨hle, hlt⟩
    · simp at hr
    · omega
  have hadds : ¬Adds (Quiet x) := by
    rintro ⟨D, z, r, -, hz, hr, -, hsame⟩
    exact hsame (hz.sameStored hr)
  have hrule := closeAllStreams_rule (Q := Quiet x) (fun D z r _ hr hD hz => hz.closeStored hr hD)
    (fun D z z' hl hz => hz.leave hl) h.wf hstart
  rcases hrule with ⟨y, D, hy, hsweep, -, hempty⟩ | ⟨-, hadds'⟩
  · exact ⟨y, D, hy, hsweep.holds, hempty.resolve_right hadds⟩
  · exact absurd hadds' hadds

/-- What the connection's own callback does is refused as well. -/
theorem Quiet.callback (h : Quiet start D y) (hended : y.ended = true) (s : Script) :
    Quiet start D (run s y) := by
  have hf := run_frame h.inv.wf s
  obtain ⟨hsame, hnew⟩ := hf.refused hended
  obtain ⟨made, heq, hmade⟩ := h.calls
  obtain ⟨made', heq', hmade'⟩ := hf.calls
  have hold (r : Nat) (hr : r < y.count) (hfin : Finished (y.objs r)) :
      Finished ((run s y).objs r) := hfin.kept (hf.old r hr)
  refine ⟨h.inv.frame hf, hf.ended.trans h.ended, h.count.trans hf.count,
    .inl (hf.ended.trans hended), fun r hr => hsame.stored.symm ▸ h.left r hr, ?_, made ++ made',
    by rw [heq', heq, List.append_assoc], fun call hcall => ?_⟩
  · rintro r (hin | ⟨hle, hlt⟩)
    · exact hold r (h.inv.lt r hin) (h.finished r (.inl hin))
    · by_cases hr : r < y.count
      · exact hold r hr (h.finished r (.inr ⟨hle, hr⟩))
      · have hrefused := hnew r (Nat.le_of_not_lt hr) hlt
        exact ⟨hrefused.closing, .inl hrefused.calls⟩
  · rcases List.mem_append.mp hcall with hcall | hcall
    · exact hmade call hcall
    · exact (hmade' call hcall).1 hended

theorem executeCloseHooks_eq {notifies : Bool} {callback : Script} (h : x.closeAllStreams = .ok y) :
    x.executeCloseHooks notifies callback = .ok (if notifies then run callback y else y) := by
  rw [executeCloseHooks, h]
  rfl

/-- The hooks of a connection that is marked, or that has no callbacks left to run. -/
theorem executeCloseHooks_quiet (h : Inv ∅ ∅ x) {notifies : Bool}
    (hquiet : x.ended = true ∨
      notifies = false ∧ ∀ r ∈ x.stored, (x.objs r).isClosing = true) (callback : Script) :
    ∃ y D, x.executeCloseHooks notifies callback = .ok y ∧ Quiet x D y ∧ y.stored = [] := by
  obtain ⟨y, D, hy, hq, hempty⟩ := closeAllStreams_quiet h (hquiet.imp_right And.right)
  refine ⟨_, D, executeCloseHooks_eq hy, ?_⟩
  cases notifies with
  | false => exact ⟨hq, hempty⟩
  | true =>
    have hended : y.ended = true := hq.ended.trans (hquiet.resolve_right (by simp))
    have hsame := ((run_frame hq.inv.wf callback).refused hended).1
    exact ⟨hq.callback hended callback, hsame.stored.trans hempty⟩

/-! ## New streams are kept -/

/-- A call since `start` got a stream that was put into a container. -/
def Loud (start x : StreamConn) : Prop :=
  ∃ call ∈ x.calls.drop start.calls.length, call.stored = true

/-- From `start` on, where callbacks open a stream, either one was opened or only streams in
`D` that were closing already have been passed. -/
structure Watched (start : StreamConn) (D : Finset Nat) (x : StreamConn) : Prop where
  ended : x.ended = false
  calls : start.calls <+: x.calls
  loud : Loud start x ∨ x.objs = start.objs ∧ (∀ r ∈ D, (start.objs r).isClosing = true) ∧
    ∀ r ∈ start.stored, r ∈ D ∨ r ∈ x.stored

theorem Loud.grows (h : Loud start x) (hstart : start.calls <+: x.calls) (hxy : Grows x y) :
    Loud start y := by
  obtain ⟨call, hcall, hstored⟩ := h
  obtain ⟨made, heq, -⟩ := hxy.calls
  refine ⟨call, ?_, hstored⟩
  rw [heq, List.drop_append_of_le_length hstart.length_le]
  exact List.mem_append_left _ hcall

/-- A callback that opens a stream. -/
def openOne : Script := .openStream .stream .done .done

/-- A callback that opens a stream on a connection that goes on gets a stored one. -/
theorem run_openOne_loud (hx : x.Wf) (hended : x.ended = false) (hstart : start.calls <+: x.calls) :
    Loud start (run openOne x) := by
  have hmakes := openStream_makes (fun _ h => run_frame h .done) hx .stream .done
  obtain ⟨made, heq, hmade⟩ := hmakes.calls
  obtain ⟨call, hcall⟩ : ∃ call, call ∈ made := by
    refine List.exists_mem_of_ne_nil made fun hnil => ?_
    have hlen := hmakes.call
    rw [heq, hnil, List.append_nil] at hlen
    exact hlen.false
  refine ⟨call, ?_, (hmade call hcall).2 hended⟩
  rw [show (run openOne x).calls = x.calls ++ made from heq,
    List.drop_append_of_le_length hstart.length_le]
  exact List.mem_append_right _ hcall

theorem closeStored_loud (hx : x.Wf) (hended : x.ended = false) (hr : ref < x.count)
    (hscript : (x.objs ref).onClose = openOne) (hclosing : (x.objs ref).isClosing = false)
    (hstart : start.calls <+: x.calls) : Loud start (x.closeStored ref) := by
  have hbefore := hx.beforeClosed hr
  have hcalls : (x.closeStored ref).calls = (run openOne (x.beforeClosed ref)).calls := by
    rw [closeStored, hscript, streamExecuteClose_eq (run_frame hbefore openOne) hr hclosing,
      afterClosed_calls]
  rw [Loud, hcalls]
  exact run_openOne_loud hbefore hended hstart

theorem Watched.closeStored (h : Watched start D x)
    (hscripts : ∀ r, (start.objs r).onClose = openOne) (hx : x.Wf) (hr : ref ∈ x.stored) :
    Watched start (insert ref D) (x.closeStored ref) := by
  have hlt := hx.lt ref hr
  have hc := closeStored_closes hx hlt
  obtain ⟨made, heq, -⟩ := hc.calls
  refine ⟨hc.ended.trans h.ended, heq ▸ h.calls.trans (List.prefix_append ..), ?_⟩
  rcases h.loud with hloud | ⟨hobjs, hD, hleft⟩
  · exact .inl (hloud.grows h.calls hc.toGrows)
  · cases hclosing : (x.objs ref).isClosing with
    | false => exact .inl (closeStored_loud hx h.ended hlt (hobjs ▸ hscripts ref) hclosing h.calls)
    | true =>
      rw [hc.silent hclosing]
      refine .inr ⟨hobjs, fun r hin => ?_, fun r hrs =>
        (hleft r hrs).imp_left (Finset.mem_insert_of_mem ·)⟩
      rcases Finset.mem_insert.mp hin with rfl | hin
      · exact hobjs ▸ hclosing
      · exact hD r hin

theorem Watched.leave (h : Watched start D x) (hxy : Leaves x y D) : Watched start D y := by
  have hcalls : y.calls = x.calls := by rw [hxy.same]
  have hobjs : y.objs = x.objs := by rw [hxy.same]
  refine ⟨by rw [hxy.same]; exact h.ended, hcalls ▸ h.calls, ?_⟩
  rcases h.loud with ⟨call, hcall, hstored⟩ | ⟨heq, hD, hleft⟩
  · exact .inl ⟨call, hcalls ▸ hcall, hstored⟩
  · exact .inr ⟨hobjs.trans heq, hD, hxy.left_or hleft⟩

/-- If callbacks that open a stream do no harm then none of them was called. -/
theorem closing_of_tornDown (h : x.Wf) (hended : x.ended = false)
    (hscripts : ∀ r, (x.objs r).onClose = openOne) (hy : x.closeAllStreams = .ok y)
    (htorn : TornDown x y) : ∀ r ∈ x.stored, (x.objs r).isClosing = true := by
  have hstart : Watched x ∅ x :=
    ⟨hended, List.prefix_rfl, .inr ⟨rfl, by simp, fun r hr => .inr hr⟩⟩
  obtain ⟨D, hsweep⟩ := closeAllStreams_sweep (Q := Watched x)
    (fun D z r hz hr _ hw => hw.closeStored hscripts hz hr) (fun D z z' hl hw => hw.leave hl) h
    hstart hy
  have hempty : y.stored = [] := by simp [stored, htorn.streams, htorn.queue, htorn.pending]
  rcases hsweep.holds.loud with ⟨call, hcall, hstored⟩ | ⟨-, hD, hleft⟩
  · exact absurd (hstored.symm.trans (htorn.calls call hcall).2) (by simp)
  · exact fun r hr => hD r ((hleft r hr).resolve_right (by simp [hempty]))

/-- `y` comes after `x`, and on a connection that has ended all new streams were refused. -/
structure Follows (x y : StreamConn) : Prop where
  ended : y.ended = x.ended
  calls : ∃ made, y.calls = x.calls ++ made ∧
    ∀ call ∈ made, x.ended = true → call.closed = true ∧ call.stored = false

theorem Grows.follows (h : Grows x y) : Follows x y := by
  obtain ⟨made, heq, hmade⟩ := h.calls
  exact ⟨h.ended, made, heq, fun call hcall => (hmade call hcall).1⟩

theorem Follows.of_eq (hended : y.ended = x.ended) (hcalls : y.calls = x.calls) : Follows x y :=
  ⟨hended, [], by simp [hcalls], by simp⟩

theorem Follows.trans (hxy : Follows x y) (hyz : Follows y z) : Follows x z := by
  obtain ⟨made, heq, hmade⟩ := hxy.calls
  obtain ⟨made', heq', hmade'⟩ := hyz.calls
  refine ⟨hyz.ended.trans hxy.ended, made ++ made', by rw [heq', heq, List.append_assoc],
    fun call hcall => ?_⟩
  rcases List.mem_append.mp hcall with hcall | hcall
  · exact hmade call hcall
  · exact hxy.ended ▸ hmade' call hcall

theorem closeAllStreams_follows (h : x.Wf) (hy : x.closeAllStreams = .ok y) :
    y.Wf ∧ Follows x y := by
  obtain ⟨D, hsweep⟩ := closeAllStreams_sweep (Q := fun _ z => Follows x z)
    (fun D z r hz hr _ hQ => hQ.trans (closeStored_closes hz (hz.lt r hr)).toGrows.follows)
    (fun D z z' hl hQ => by rw [hl.same]; exact ⟨hQ.ended, hQ.calls⟩) h (.of_eq rfl rfl) hy
  exact ⟨hsweep.wf, hsweep.holds⟩

/-- If callbacks that open a stream do no harm then there is none to be called. -/
theorem quiet_of_tornDown (h : Inv ∅ ∅ x) (hended : x.ended = false) {notifies : Bool}
    (hstreams : ∃ y, (x.behave fun _ => openOne).executeCloseHooks notifies .done = .ok y ∧
      TornDown x y)
    (hcallback : ∃ y, (x.behave fun _ => .done).executeCloseHooks notifies openOne = .ok y ∧
      TornDown x y) :
    notifies = false ∧ ∀ r ∈ x.stored, (x.objs r).isClosing = true := by
  constructor
  · obtain ⟨y, hy, htorn⟩ := hcallback
    obtain ⟨z, hz, hy⟩ := bind_ok hy
    have hbehave : Inv ∅ ∅ (x.behave fun _ => .done) := behave_inv h
    obtain ⟨hwf, hfollows⟩ := closeAllStreams_follows hbehave.wf hz
    obtain ⟨made, heq, -⟩ := hfollows.calls
    cases notifies with
    | false => rfl
    | true =>
      obtain rfl : run openOne z = y := Except.ok.inj hy
      have hprefix : x.calls <+: z.calls := heq ▸ List.prefix_append ..
      obtain ⟨call, hcall, hstored⟩ := run_openOne_loud hwf (hfollows.ended.trans hended) hprefix
      exact absurd (hstored.symm.trans (htorn.calls call hcall).2) (by simp)
  · obtain ⟨y, hy, htorn⟩ := hstreams
    obtain ⟨z, hz, hy⟩ := bind_ok hy
    obtain rfl : z = y := by cases notifies <;> exact Except.ok.inj hy
    have hbehave : Inv ∅ ∅ (x.behave fun _ => openOne) := behave_inv h
    exact @closing_of_tornDown (x.behave fun _ => openOne) z hbehave.wf hended (fun _ => rfl) hz
      ⟨htorn.calls, htorn.streams, htorn.queue, htorn.pending, htorn.finished⟩

/-! ## Which function closes a stream -/

/-- No callback makes a `BTRequestStream`, and none of the objects from `n` on is one. -/
def PlainFrom (n : Nat) (x : StreamConn) : Prop :=
  ∀ r < x.count, (x.objs r).onClose.plain = true ∧ (n ≤ r → (x.objs r).kind = .stream)

theorem PlainFrom.modify {n : Nat} (h : PlainFrom n x) (ref : Nat) {f : StreamObj → StreamObj}
    (hf : ∀ o, (f o).onClose = o.onClose ∧ (f o).kind = o.kind) : PlainFrom n (x.modify ref f) := by
  intro r hlt
  by_cases hr : r = ref
  · subst hr
    rw [modify_objs_self, (hf _).1, (hf _).2]
    exact h r hlt
  · rw [modify_objs_of_ne hr]
    exact h r hlt

theorem PlainFrom.streamExecuteClose {n : Nat} {callback : StreamConn → StreamConn}
    (hcb : ∀ y, PlainFrom n y → PlainFrom n (callback y)) (h : PlainFrom n x) (ref : Nat) :
    PlainFrom n (x.streamExecuteClose callback ref) := by
  have hmark : PlainFrom n (x.modify ref fun o => { o with isClosing := true }) :=
    h.modify ref fun _ => ⟨rfl, rfl⟩
  have hclosed (y : StreamConn) (hy : PlainFrom n y) : PlainFrom n (y.closed callback ref) := by
    have hcall := hcb _ (hy.modify ref (f := fun o => { o with closedCalls := o.closedCalls + 1 })
      fun _ => ⟨rfl, rfl⟩)
    unfold StreamConn.closed
    dsimp only
    split
    · exact hcall.modify ref fun _ => ⟨rfl, rfl⟩
    · exact hcall.modify ref fun o => by split_ifs <;> exact ⟨rfl, rfl⟩
  have hstray (y : StreamConn) (hy : PlainFrom n y) (strays : List Nat) :
      PlainFrom n { y with strays := strays } := hy
  unfold StreamConn.streamExecuteClose
  dsimp only
  split_ifs
  · exact hstray _ hmark _
  · exact hmark
  · exact hclosed _ (hstray _ hmark _)
  · exact hclosed _ hmark

theorem PlainFrom.newStream {n : Nat} {callback : StreamConn → StreamConn}
    (hcb : ∀ y, PlainFrom n y → PlainFrom n (callback y)) (h : PlainFrom n x) {onClose : Script}
    (hplain : onClose.plain = true) {place : Nat → StreamConn → StreamConn}
    (hplace : ∀ ref y, (place ref y).objs = y.objs ∧ (place ref y).count = y.count) :
    PlainFrom n (x.newStream callback .stream onClose place) := by
  have hmade : PlainFrom n { x with
      count := x.count + 1
      objs := Function.update x.objs x.count { kind := .stream, onClose := onClose } } := by
    intro r hlt
    dsimp only
    by_cases hr : r = x.count
    · rw [hr, Function.update_self]
      exact ⟨hplain, fun _ => rfl⟩
    · rw [Function.update_of_ne hr]
      exact h r (Nat.lt_of_le_of_ne (Nat.lt_succ_iff.mp hlt) hr)
  have hcall (y : StreamConn) (hy : PlainFrom n y) (calls : List OpenCall) :
      PlainFrom n { y with calls := calls } := hy
  unfold StreamConn.newStream
  dsimp only
  split_ifs
  · exact hcall _ (hmade.streamExecuteClose hcb x.count) _
  · refine hcall _ (fun r hr => ?_) _
    rw [(hplace _ _).2] at hr
    rw [(hplace _ _).1]
    exact hmade r hr

theorem run_plain {n : Nat} (s : Script) (hs : s.plain = true) (h : PlainFrom n x) :
    PlainFrom n (run s x) := by
  induction s generalizing x with
  | done => exact h
  | openStream kind onClose next ihClose ihNext =>
    simp only [Script.plain, Bool.and_eq_true, beq_iff_eq] at hs
    obtain ⟨⟨rfl, hclose⟩, hnext⟩ := hs
    refine ihNext hnext (h.newStream (fun _ hy => ihClose hclose hy) hclose fun ref y => ?_)
    split_ifs <;> exact ⟨rfl, rfl⟩
  | queueIncomingStream kind onClose next ihClose ihNext =>
    simp only [Script.plain, Bool.and_eq_true, beq_iff_eq] at hs
    obtain ⟨⟨rfl, hclose⟩, hnext⟩ := hs
    have hnew : PlainFrom n { x with nextIncomingStreamId := x.nextIncomingStreamId + 4 } := h
    exact ihNext hnext
      (hnew.newStream (fun _ hy => ihClose hclose hy) hclose fun _ _ => ⟨rfl, rfl⟩)
  | closeStream ref next ih =>
    refine ih hs ?_
    split_ifs
    · exact h.modify ref fun o => by split_ifs <;> exact ⟨rfl, rfl⟩
    · exact h

/-- From `start` on, objects have kept their kinds, and those that were closing are as they were. -/
structure SameKinds (start x : StreamConn) : Prop where
  count : start.count ≤ x.count
  kind : ∀ r < start.count, (x.objs r).kind = (start.objs r).kind
  closing : ∀ r < start.count, (start.objs r).isClosing = true → x.objs r = start.objs r
  plain : PlainFrom start.count x

theorem Kept.kind {o p : StreamObj} (h : Kept o p) : p.kind = o.kind := by
  rcases h with rfl | ⟨-, rfl⟩ <;> rfl

theorem SameKinds.kept (h : SameKinds start x) (hcount : x.count ≤ y.count)
    (hold : ∀ r < x.count, (y.objs r).kind = (x.objs r).kind ∧
      ((x.objs r).isClosing = true → y.objs r = x.objs r)) (hplain : PlainFrom start.count y) :
    SameKinds start y where
  count := h.count.trans hcount
  kind r hr := (hold r (hr.trans_le h.count)).1.trans (h.kind r hr)
  closing r hr hc := by
    have hx := h.closing r hr hc
    exact ((hold r (hr.trans_le h.count)).2 (hx ▸ hc)).trans hx
  plain := hplain

theorem SameKinds.closeStored (h : SameKinds start x) (hx : x.Wf) (hr : ref ∈ x.stored) :
    SameKinds start (x.closeStored ref) := by
  have hc := closeStored_closes hx (hx.lt ref hr)
  refine h.kept hc.count (fun r hlt => ?_)
    (h.plain.streamExecuteClose (fun _ hy => run_plain _ (h.plain ref (hx.lt ref hr)).1 hy) ref)
  by_cases hne : r = ref
  · subst hne
    rw [hc.self, objClosed]
    by_cases hclosing : (x.objs r).isClosing = true
    · rw [if_pos hclosing]
      exact ⟨rfl, fun _ => rfl⟩
    · rw [if_neg hclosing]
      exact ⟨rfl, fun hcl => absurd hcl hclosing⟩
  · exact ⟨(hc.old r hlt hne).kind, (hc.old r hlt hne).eq⟩

theorem SameKinds.executeCloseHooks (h : SameKinds x x) (hx : x.Wf) {notifies : Bool}
    {callback : Script} (hcb : callback.plain = true)
    (hy : x.executeCloseHooks notifies callback = .ok y) : SameKinds x y := by
  obtain ⟨z, hz, hy⟩ := bind_ok hy
  obtain ⟨D, hsweep⟩ := closeAllStreams_sweep (Q := fun _ w => SameKinds x w)
    (fun D w r hw hr _ hQ => hQ.closeStored hw hr)
    (fun D w w' hl hQ => by
      rw [hl.same]
      exact ⟨hQ.count, hQ.kind, hQ.closing, hQ.plain⟩) hx h hz
  cases notifies with
  | false => exact Except.ok.inj hy ▸ hsweep.holds
  | true =>
    obtain rfl : run callback z = y := Except.ok.inj hy
    have hf := run_frame hsweep.wf callback
    exact hsweep.holds.kept hf.count (fun r hr => ⟨(hf.old r hr).kind, (hf.old r hr).eq⟩)
      (run_plain callback hcb hsweep.holds.plain)

theorem closeStored_appClosed (hx : x.Wf) (hr : ref < x.count)
    (hscript : (x.objs ref).onClose = .done) (r : Nat) :
    ((x.closeStored ref).objs r).onClose = (x.objs r).onClose ∧
      ((x.closeStored ref).objs r).appClosed = (x.objs r).appClosed := by
  by_cases hne : r = ref
  · subst hne
    rw [(closeStored_closes hx hr).self, objClosed]
    split_ifs <;> exact ⟨rfl, rfl⟩
  · rw [closeStored, hscript]
    cases hclosing : (x.objs ref).isClosing with
    | true =>
      rw [streamExecuteClose_of_closing _ hclosing]
      exact ⟨rfl, rfl⟩
    | false =>
      rw [streamExecuteClose_eq (run_frame (hx.beforeClosed hr) .done) hr hclosing,
        afterClosed_objs_of_ne hne, run, beforeClosed_objs_of_ne hne]
      exact ⟨rfl, rfl⟩

/-- With callbacks that do nothing, no stream is closed by the application. -/
theorem closeAllStreams_appClosed (h : x.Wf) (hscripts : ∀ r, (x.objs r).onClose = .done)
    (hy : x.closeAllStreams = .ok y) : ∀ r, (y.objs r).appClosed = (x.objs r).appClosed := by
  obtain ⟨D, hsweep⟩ := closeAllStreams_sweep (Q := fun _ z => ∀ r,
      (z.objs r).onClose = .done ∧ (z.objs r).appClosed = (x.objs r).appClosed)
    (fun D z ref hz hr _ hQ r => by
      obtain ⟨hscript, happ⟩ := closeStored_appClosed hz (hz.lt ref hr) (hQ ref).1 r
      rw [hscript, happ]
      exact hQ r)
    (fun D z z' hl hQ => by rw [hl.same]; exact hQ) h (fun r => ⟨hscripts r, rfl⟩) hy
  exact fun r => (hsweep.holds r).2

/-! ## After the end -/

theorem checkPendingStreams_follows (available : Nat) (x : StreamConn) :
    Follows x (checkPendingStreams available x) := by
  induction available generalizing x with
  | zero => exact .of_eq rfl rfl
  | succ available ih =>
    unfold checkPendingStreams
    split
    · exact .of_eq rfl rfl
    · split_ifs
      · exact .of_eq rfl rfl
      · exact ⟨(ih _).ended, (ih _).calls⟩

theorem marked_ended {ending : Ending} :
    (x.marked ending).ended = true ↔ ending ≠ .drop ∨ x.ended = true := by
  cases ending <;> simp [marked, ended]

theorem marked_calls {ending : Ending} : (x.marked ending).calls = x.calls := by
  cases ending <;> rfl

theorem step_follows {op : Op} (h : Inv ∅ ∅ x) (hended : x.ended = true)
    (hy : x.step op = .ok y) : Follows x y := by
  have hwf := h.wf
  cases op with
  | openStream kind onClose =>
    cases hy
    exact (openStream_makes (fun _ h => run_frame h onClose) hwf kind onClose).toGrows.follows
  | queueIncomingStream kind onClose =>
    cases hy
    exact (queueIncomingStream_makes (fun _ h => run_frame h onClose) hwf kind
      onClose).toGrows.follows
  | streamOpened id kind onClose openCb accept =>
    cases hy
    have hf := (run_frame (announced_inv h id kind onClose).wf openCb).toGrows.follows
    unfold streamOpened
    split
    · exact .of_eq rfl rfl
    · cases accept <;> exact ⟨hf.ended, hf.calls⟩
  | close ref =>
    cases hy
    exact .of_eq rfl rfl
  | streamClosed id =>
    cases hy
    by_cases hmem : ∃ ref, (id, ref) ∈ x.streams
    · obtain ⟨ref, hmem⟩ := hmem
      have hstored : ref ∈ x.stored := by
        simp only [stored, List.mem_append, List.mem_map]
        exact .inl (.inl ⟨_, hmem, rfl⟩)
      have hc := (closeStored_closes hwf (hwf.lt ref hstored)).toGrows.follows
      rw [streamClosed_of_mem hwf hmem]
      exact hc.trans (.of_eq rfl rfl)
    · rw [streamClosed_of_notMem hmem]
      exact .of_eq rfl rfl
  | extendMaxStreams more =>
    cases hy
    have hpending := checkPendingStreams_follows (x.bidiLeft + more)
      { x with bidiLeft := x.bidiLeft + more }
    exact ⟨hpending.ended, hpending.calls⟩
  | closeAllStreams ending =>
    have hmarked : (x.marked ending).ended = x.ended := by
      rw [hended, marked_ended]
      exact .inr hended
    exact .trans (.of_eq hmarked marked_calls)
      (closeAllStreams_follows (@marked_inv x ending h).wf hy).2
  | deleteConnection =>
    cases hy
    exact .of_eq (by rw [hended]; rfl) rfl

theorem steps_follows (h : machine.Steps x y) (hinv : Inv ∅ ∅ x) (hended : x.ended = true) :
    Follows x y := by
  suffices hkeep : Inv ∅ ∅ y ∧ Follows x y from hkeep.2
  refine h.keep (P := fun z => Inv ∅ ∅ z ∧ Follows x z) ?_ ⟨hinv, .of_eq rfl rfl⟩
  rintro z op w ⟨hz, hfollows⟩ hen hw
  exact ⟨step_inv hz hen hw, hfollows.trans (step_follows hz (hfollows.ended.trans hended) hw)⟩

/-- Once the hooks have run, the connection is closing or draining, or has been deleted. -/
theorem endConnection_ended {ending : Ending} {notifies : Bool} {callback : Script}
    (h : Inv ∅ ∅ x) (hy : x.endConnection ending notifies callback = .ok y) :
    Inv ∅ ∅ y ∧ y.ended = true := by
  obtain ⟨z, hz, hy⟩ := bind_ok hy
  obtain ⟨w, hw, hz⟩ := bind_ok hz
  have hmarked := @marked_inv x ending h
  have hinv := closeAllStreams_inv hmarked hw
  have hended := (closeAllStreams_follows hmarked.wf hw).2.ended
  have hcallback : Inv ∅ ∅ z ∧ z.ended = w.ended := by
    have hf := run_frame hinv.wf callback
    cases notifies with
    | false => exact Except.ok.inj hz ▸ ⟨hinv, rfl⟩
    | true => exact Except.ok.inj hz ▸ ⟨hinv.frame hf, hf.ended⟩
  by_cases hdrop : ending = .drop
  · rw [if_pos hdrop] at hy
    cases hy
    exact ⟨dropStreams_inv (@marked_inv z .close hcallback.1), rfl⟩
  · rw [if_neg hdrop] at hy
    cases hy
    exact ⟨hcallback.1, hcallback.2.trans (hended.trans (marked_ended.mpr (.inl hdrop)))⟩

/-! ## Results -/

theorem marked_stored {ending : Ending} : (x.marked ending).stored = x.stored := by
  cases ending <;> rfl

theorem marked_objs {ending : Ending} : (x.marked ending).objs = x.objs := by
  cases ending <;> rfl

theorem marked_count {ending : Ending} : (x.marked ending).count = x.count := by
  cases ending <;> rfl

theorem TornDown.of_start (h : TornDown x y) (hcalls : x.calls = z.calls)
    (hstored : x.stored = z.stored) (hcount : x.count = z.count) : TornDown z y :=
  ⟨hcalls ▸ h.calls, h.streams, h.queue, h.pending, hstored ▸ hcount ▸ h.finished⟩

/-- The connection is marked when its hooks run, or has no callbacks left that they could run. -/
def Shut (x : StreamConn) (ending : Ending) (notifies : Bool) : Prop :=
  ending ≠ .drop ∨ x.ended = true ∨
    notifies = false ∧ ∀ r ∈ x.stored, (x.objs r).isClosing = true

theorem Shut.tornDown {ending : Ending} {notifies : Bool} (hcond : x.Shut ending notifies)
    (h : Inv ∅ ∅ x) (scripts : Nat → Script) (callback : Script) :
    ∃ y, ((x.behave scripts).marked ending).executeCloseHooks notifies callback = .ok y ∧
      TornDown x y := by
  have hbehave : Inv ∅ ∅ (x.behave scripts) := behave_inv h
  obtain ⟨y, D, hy, hq, hempty⟩ := executeCloseHooks_quiet (@marked_inv _ ending hbehave) (by
    rw [marked_ended, marked_stored, marked_objs, or_assoc]
    exact hcond) callback
  exact ⟨y, hy, (hq.tornDown hempty).of_start marked_calls marked_stored marked_count⟩

theorem shut_of_tornDown {ending : Ending} {notifies : Bool} (h : Inv ∅ ∅ x)
    (htorn : ∀ scripts callback, (∀ r, (scripts r).plain = true) → callback.plain = true →
      ∃ y, ((x.behave scripts).marked ending).executeCloseHooks notifies callback = .ok y ∧
        TornDown x y) : x.Shut ending notifies := by
  by_cases hmarked : ending ≠ .drop ∨ x.ended = true
  · exact hmarked.imp_right .inl
  · obtain ⟨rfl, hended⟩ : ending = .drop ∧ x.ended = false := by simpa using hmarked
    exact .inr (.inr (quiet_of_tornDown h hended
      (htorn (fun _ => openOne) .done (fun _ => rfl) rfl)
      (htorn (fun _ => .done) openOne (fun _ => rfl) rfl)))

/-- If callbacks make no `BTRequestStream` then new streams are no exception. -/
theorem closedOnce_of_plain {ending : Ending} {notifies : Bool} (h : Inv ∅ ∅ x)
    (hkinds : ∀ r ∈ x.stored, (x.objs r).isClosing = true ∨ (x.objs r).kind = .stream)
    {scripts : Nat → Script} {callback : Script} (hscripts : ∀ r, (scripts r).plain = true)
    (hcb : callback.plain = true)
    (hy : ((x.behave scripts).marked ending).executeCloseHooks notifies callback = .ok y)
    (htorn : TornDown x y) :
    ∀ r, r ∈ x.stored ∨ x.count ≤ r ∧ r < y.count → ClosedOnce (y.objs r) := by
  have hbehave : Inv ∅ ∅ (x.behave scripts) := behave_inv h
  have hstart : SameKinds ((x.behave scripts).marked ending)
      ((x.behave scripts).marked ending) := by
    refine ⟨le_rfl, fun _ _ => rfl, fun _ _ _ => rfl, fun r hr => ?_⟩
    rw [marked_objs]
    exact ⟨hscripts r, fun hle => absurd hr (Nat.not_lt.mpr hle)⟩
  have hsame := hstart.executeCloseHooks (@marked_inv _ ending hbehave).wf hcb hy
  have hcount : ((x.behave scripts).marked ending).count = x.count := marked_count
  rintro r (hr | ⟨hle, hlt⟩)
  · have hrx : r < ((x.behave scripts).marked ending).count := hcount ▸ h.wf.lt r hr
    have hobj : ((x.behave scripts).marked ending).objs r =
        { x.objs r with onClose := scripts r } := by rw [marked_objs]; rfl
    rcases hkinds r hr with hclosing | hkind
    · -- The application had closed it, and it stays as it was.
      obtain ⟨hcalls, happ⟩ := (h.objs r (h.wf.lt r hr) (by simp)).fresh hr (by simp)
      rw [hsame.closing r hrx (by rw [hobj]; exact hclosing), hobj]
      refine .inr ⟨?_, happ ▸ hclosing⟩
      simp only [StreamObj.closedRuns, hcalls]
      split <;> rfl
    · refine (htorn.finished r (.inl hr)).closedOnce ?_
      rw [hsame.kind r hrx, hobj]
      exact hkind
  · exact (htorn.finished r (.inr ⟨hle, hlt⟩)).closedOnce
      ((hsame.plain r hlt).2 (hcount ▸ hle))

theorem kind_of_closedOnce {ending : Ending} {notifies : Bool} (h : Inv ∅ ∅ x)
    (hy : ((x.behave fun _ => .done).marked ending).executeCloseHooks notifies .done = .ok y)
    (honce : ∀ r ∈ x.stored, ClosedOnce (y.objs r)) :
    ∀ r ∈ x.stored, (x.objs r).isClosing = true ∨ (x.objs r).kind = .stream := by
  have hbehave : Inv ∅ ∅ (x.behave fun _ => .done) := behave_inv h
  have hmarked := @marked_inv _ ending hbehave
  have hsame := SameKinds.executeCloseHooks ⟨le_rfl, fun _ _ => rfl, fun _ _ _ => rfl,
    fun r hr => by
      rw [marked_objs]
      exact ⟨rfl, fun hle => absurd hr (Nat.not_lt.mpr hle)⟩⟩ hmarked.wf rfl hy
  obtain ⟨z, hz, hy⟩ := bind_ok hy
  obtain rfl : z = y := by cases notifies <;> exact Except.ok.inj hy
  have happ := closeAllStreams_appClosed hmarked.wf (fun r => by rw [marked_objs]; rfl) hz
  intro r hr
  have hrx : r < ((x.behave fun _ => .done).marked ending).count :=
    (@marked_count (x.behave fun _ => .done) ending).symm ▸ h.wf.lt r hr
  have hkind : (z.objs r).kind = (x.objs r).kind := by
    rw [hsame.kind r hrx, marked_objs]
    rfl
  have happ : (z.objs r).appClosed = (x.objs r).isClosing := by
    rw [happ, marked_objs, ((h.objs r (h.wf.lt r hr) (by simp)).fresh hr (by simp)).2]
    rfl
  cases hk : (x.objs r).kind with
  | stream => exact .inr rfl
  | btRequest =>
    have hruns : (z.objs r).closedRuns = 0 := by rw [StreamObj.closedRuns, hkind, hk]
    rcases honce r hr with hone | ⟨-, hclosed⟩
    · rw [hruns] at hone
      cases hone
    · exact .inl (happ ▸ hclosed)

/-- However a connection ends, its close hooks return and leave no stream behind, whatever the
callbacks do, exactly if the connection is marked as closing or draining by then or has no callbacks
left to run. `Stream::closed` has then been run for all streams, exactly if those that were still
open are not `BTRequestStream`s; the callbacks must not make one either. After the end, all new
streams are refused. -/
theorem close_hooks_tear_down_iff (h : machine.Reachable x) (ending : Ending) (notifies : Bool) :
    ((∀ scripts callback, ∃ y,
      ((x.behave scripts).marked ending).executeCloseHooks notifies callback = .ok y ∧
        TornDown x y) ↔ x.Shut ending notifies) ∧
    ((∀ scripts callback, (∀ r, (scripts r).plain = true) → callback.plain = true → ∃ y,
      ((x.behave scripts).marked ending).executeCloseHooks notifies callback = .ok y ∧
        TornDown x y ∧
        ∀ r, r ∈ x.stored ∨ x.count ≤ r ∧ r < y.count → ClosedOnce (y.objs r)) ↔
      x.Shut ending notifies ∧
        ∀ r ∈ x.stored, (x.objs r).isClosing = true ∨ (x.objs r).kind = .stream) ∧
    ∀ callback y z, x.endConnection ending notifies callback = .ok y → machine.Steps y z →
      ∀ call ∈ z.calls.drop y.calls.length, call.closed = true ∧ call.stored = false := by
  have hinv := reachable_inv h
  refine ⟨⟨fun htorn => ?_, fun hshut => hshut.tornDown hinv⟩, ⟨fun htorn => ⟨?_, ?_⟩, ?_⟩, ?_⟩
  · exact shut_of_tornDown hinv fun scripts callback _ _ => htorn scripts callback
  · refine shut_of_tornDown hinv fun scripts callback hscripts hcb => ?_
    obtain ⟨y, hy, hdown, -⟩ := htorn scripts callback hscripts hcb
    exact ⟨y, hy, hdown⟩
  · obtain ⟨y, hy, -, honce⟩ := htorn (fun _ => .done) .done (fun _ => rfl) rfl
    exact kind_of_closedOnce hinv hy fun r hr => honce r (.inl hr)
  · rintro ⟨hshut, hkinds⟩ scripts callback hscripts hcb
    obtain ⟨y, hy, hdown⟩ := hshut.tornDown hinv scripts callback
    exact ⟨y, hy, hdown, closedOnce_of_plain hinv hkinds hscripts hcb hy hdown⟩
  · intro callback y z hy hsteps
    obtain ⟨hend, hended⟩ := endConnection_ended hinv hy
    obtain ⟨made, heq, hmade⟩ := (steps_follows hsteps hend hended).calls
    rw [heq, List.drop_left]
    exact fun call hcall => hmade call hcall hended

theorem close_hooks_tear_down_iff_close :
    let x := openStream (run .done) .stream .done { bidiLeft := 1 }
    machine.Reachable x ∧ ∀ scripts callback,
      (∀ r, (scripts r).plain = true) → callback.plain = true → ∃ y,
        ((x.behave scripts).marked .close).executeCloseHooks true callback = .ok y ∧
          TornDown x y ∧
          ∀ r, r ∈ x.stored ∨ x.count ≤ r ∧ r < y.count → ClosedOnce (y.objs r) := by
  intro x
  have hreach : machine.Reachable x :=
    .step (i := .openStream .stream .done) (.initial (.inl ⟨1, rfl⟩)) trivial rfl
  refine ⟨hreach, (close_hooks_tear_down_iff hreach .close true).2.1.mpr ⟨.inl (by decide), ?_⟩⟩
  decide

/-- A connection is dropped. Its one stream's callback queues another one, which stays in the queue
and is not closed. With no stream at all, the connection's own callback gets one that is open and
stored. And a `BTRequestStream` is closed, even if the connection is, without `Stream::closed`. -/
theorem dropped_connection_keeps_queued_stream :
    (let x := openStream (run .done) .stream (.queueIncomingStream .stream .done .done)
      { bidiLeft := 1 }
    machine.Reachable x ∧ ∃ y, (x.marked .drop).executeCloseHooks true .done = .ok y ∧
      y.calls.drop x.calls.length = [⟨false, true⟩] ∧ y.streamQueue = [(1, 1)] ∧
      (y.objs 1).isClosing = false ∧ (y.objs 1).closedRuns = 0) ∧
    (let x : StreamConn := { bidiLeft := 1 }
    machine.Reachable x ∧ ∃ y, (x.marked .drop).executeCloseHooks true openOne = .ok y ∧
      y.calls = [⟨false, true⟩] ∧ y.streams = [(0, 0)]) ∧
    let x := openStream (run .done) .btRequest .done { bidiLeft := 1 }
    machine.Reachable x ∧ ∃ y, (x.marked .close).executeCloseHooks true .done = .ok y ∧
      (y.objs 0).closedRuns = 0 ∧ (y.objs 0).appClosed = false :=
  ⟨⟨.step (i := .openStream .stream _) (.initial (.inl ⟨1, rfl⟩)) trivial rfl,
    _, rfl, rfl, rfl, rfl, rfl⟩, ⟨.initial (.inl ⟨1, rfl⟩), _, rfl, rfl, rfl⟩,
    .step (i := .openStream .btRequest _) (.initial (.inl ⟨1, rfl⟩)) trivial rfl,
    _, rfl, rfl, rfl⟩

end StreamConn

end Libquic
