import Libquic.Connection.RemoteStreams

/-!
# Credit for streams of the remote

When a stream of the remote has ended the remote may open another, and it is told so by
`ngtcp2_conn_extend_max_streams_bidi`. The call is made by `stream_closed`, for a stream that is in
`_streams`. A stream is there until the first notice of its end, but one that `stream_open_cb` has
refused never gets there.
-/
namespace Libquic.RemoteStreams

open Lib

variable {s t : RemoteStreams} {op : Op} {id : Int}

/-- The stream is in `_streams`, or `stream_open_cb` has it. -/
def Live (s : RemoteStreams) (id : Int) : Prop :=
  s.streams id ≠ none ∨ ∃ ref, s.phase = .opening id ref

/-- What has become of a stream of the remote. -/
inductive Fate (s : RemoteStreams) (id : Int) : Prop
  | unseen : id ∉ s.opened → ¬ s.Live id → id ∉ s.rejected → id ∉ s.closed →
      s.extended.count id = 0 → Fate s id
  | live : id ∈ s.opened → s.Live id → id ∉ s.rejected → id ∉ s.closed →
      s.extended.count id = 0 → Fate s id
  | credited : id ∈ s.opened → ¬ s.Live id → id ∉ s.rejected →
      s.extended.count id = 1 → Fate s id
  | refused : id ∈ s.opened → ¬ s.Live id → id ∈ s.rejected →
      s.extended.count id = 0 → Fate s id
  | lost : id ∈ s.opened → ¬ s.Live id → id ∉ s.rejected → id ∉ s.closed →
      s.extended.count id = 0 → s.deleted = true → Fate s id

/-- A step that does not concern the stream. -/
theorem Fate.congr (h : s.Fate id) (hlive : t.Live id ↔ s.Live id)
    (hopened : id ∈ t.opened ↔ id ∈ s.opened) (hrejected : id ∈ t.rejected ↔ id ∈ s.rejected)
    (hclosed : id ∈ t.closed ↔ id ∈ s.closed)
    (hextended : t.extended.count id = s.extended.count id) (hdeleted : t.deleted = s.deleted) :
    t.Fate id := by
  cases h with
  | unseen ho hl hr hc he =>
    exact .unseen (mt hopened.mp ho) (mt hlive.mp hl) (mt hrejected.mp hr) (mt hclosed.mp hc)
      (hextended.trans he)
  | live ho hl hr hc he =>
    exact .live (hopened.mpr ho) (hlive.mpr hl) (mt hrejected.mp hr) (mt hclosed.mp hc)
      (hextended.trans he)
  | credited ho hl hr he =>
    exact .credited (hopened.mpr ho) (mt hlive.mp hl) (mt hrejected.mp hr) (hextended.trans he)
  | refused ho hl hr he =>
    exact .refused (hopened.mpr ho) (mt hlive.mp hl) (hrejected.mpr hr) (hextended.trans he)
  | lost ho hl hr hc he hd =>
    exact .lost (hopened.mpr ho) (mt hlive.mp hl) (mt hrejected.mp hr) (mt hclosed.mp hc)
      (hextended.trans he) (hdeleted.trans hd)

theorem live_of_streams {ref : Nat} (h : s.streams id = some ref) : s.Live id := .inl (by simp [h])

/-- A stream that is opened now is one that was not seen before. -/
theorem Fate.opens (h : s.Fate id) (hnew : id ∉ s.opened) (hlive : t.Live id)
    (hopened : t.opened = s.opened ++ [id]) (hrejected : t.rejected = s.rejected)
    (hclosed : t.closed = s.closed) (hextended : t.extended = s.extended) : t.Fate id := by
  cases h with
  | unseen _ _ hr hc he =>
    exact .live (by simp [hopened]) hlive (hrejected ▸ hr) (hclosed ▸ hc) (hextended ▸ he)
  | live ho _ _ _ _ | credited ho _ _ _ | refused ho _ _ _ | lost ho _ _ _ _ _ =>
    exact absurd ho hnew

/-- `stream_open_cb` is called for a stream, this one or another. -/
theorem Fate.opening {id' next : Int} {ref count : Nat} (h : s.Fate id) (hnew : id' ∉ s.opened)
    (hidle : s.phase = .idle) :
    Fate { s with
      nextIncomingStreamId := next
      count := count
      phase := .opening id' ref
      opened := s.opened ++ [id'] } id := by
  by_cases heq : id = id'
  · subst heq
    exact h.opens hnew (.inr ⟨ref, rfl⟩) rfl rfl rfl rfl
  · exact h.congr (by simp [Live, hidle, Ne.symm heq]) (by simp [heq]) .rfl .rfl rfl rfl

/-- A stream that is there has not been refused, and no other is allowed for it yet. -/
theorem Fate.of_live (h : s.Fate id) (hlive : s.Live id) :
    id ∈ s.opened ∧ id ∉ s.rejected ∧ s.extended.count id = 0 := by
  cases h with
  | live ho _ hr _ he => exact ⟨ho, hr, he⟩
  | unseen _ hl _ _ _ | credited _ hl _ _ | refused _ hl _ _ | lost _ hl _ _ _ _ =>
    exact absurd hlive hl

/-- The end of a stream that is not there any more is reported. -/
theorem Fate.notice (h : s.Fate id) (hlive : ¬ s.Live id) (ho : id ∈ s.opened)
    (hdeleted : s.deleted = false) (notice : Notice) : (s.noticed id notice).Fate id := by
  cases notice with
  | reset => exact h
  | close =>
    cases h with
    | unseen hnew _ _ _ _ => exact absurd ho hnew
    | live _ hl _ _ _ => exact absurd hl hlive
    | credited _ hl hr he => exact .credited ho hl hr he
    | refused _ hl hr he => exact .refused ho hl hr he
    | lost _ _ _ _ _ hd => simp [hdeleted] at hd

theorem noticed_other {id' : Int} (hne : id ≠ id') (notice : Notice) :
    ((s.noticed id' notice).Live id ↔ s.Live id) ∧
      (id ∈ (s.noticed id' notice).closed ↔ id ∈ s.closed) ∧
      (s.noticed id' notice).rejected = s.rejected ∧
      (s.noticed id' notice).extended = s.extended ∧
      (s.noticed id' notice).deleted = s.deleted := by
  cases notice <;> simp [noticed, Live, hne]

theorem Fate.change (hwf : s.Wf) (hremote : s.IsRemote id) (h : s.Fate id) (hc : Change s op t) :
    t.Fate id := by
  cases hc with
  | queue _ | makeStream | startClosing | clearQueue =>
    exact h.congr .rfl .rfl .rfl .rfl rfl rfl
  | openStream =>
    have hne : id ≠ s.nextStreamId := by
      have := hwf.sides
      unfold IsRemote at hremote
      omega
    refine h.congr ?_ .rfl .rfl .rfl rfl rfl
    simp [Live, hne]
  | @openQueued id' ref hget hnone hnew =>
    by_cases heq : id = id'
    · subst heq
      exact h.opens hnew (live_of_streams (Function.update_self ..)) rfl rfl rfl rfl
    · exact h.congr (by simp [Live, heq]) (by simp [heq]) .rfl .rfl rfl rfl
  | openNext _ hnew _ hidle => exact h.opening hnew hidle
  | openOther _ hnew _ hidle _ _ => exact h.opening hnew hidle
  | @accept id' ref hphase hnone =>
    refine h.congr ?_ .rfl .rfl .rfl rfl rfl
    by_cases heq : id = id'
    · subst heq
      exact iff_of_true (live_of_streams (Function.update_self ..)) (.inr ⟨ref, hphase⟩)
    · simp [Live, hphase, heq, Ne.symm heq]
  | @reject id' ref hphase =>
    by_cases heq : id = id'
    · subst heq
      obtain ⟨-, ho, hnone⟩ := hwf.opening id ref hphase
      obtain ⟨-, -, he⟩ := h.of_live (.inr ⟨ref, hphase⟩)
      exact .refused ho (by simp [Live, hnone]) (by simp) he
    · exact h.congr (by simp [Live, hphase, Ne.symm heq]) .rfl (by simp [heq]) .rfl rfl rfl
  | @unknown id' notice hnone hidle hdeleted hmem =>
    by_cases heq : id = id'
    · subst heq
      have hlive : ¬ s.Live id := by simp [Live, hnone, hidle]
      exact h.notice hlive (hmem.resolve_right (not_not_intro hremote)) hdeleted notice
    · obtain ⟨hl, hc, hr, he, hd⟩ := noticed_other (s := s) heq notice
      exact h.congr hl (by simp) (by rw [hr]) hc (by rw [he]) hd
  | ending hget hidle =>
    refine h.congr ?_ .rfl .rfl .rfl rfl rfl
    simp [Live, hidle]
  | @ended id' notice hphase =>
    by_cases heq : id = id'
    · subst heq
      obtain ⟨ho, hr, he⟩ := h.of_live (.inl (hwf.ending id notice hphase).1)
      rw [if_pos hremote]
      cases notice <;> exact .credited ho (by simp [Live, noticed]) hr (by simp [noticed, he])
    · obtain ⟨hl, hc, hr, he, hd⟩ := noticed_other (s := { s with
        streams := Function.update s.streams id' none
        extended := if s.IsRemote id' then s.extended ++ [id'] else s.extended
        phase := .idle }) heq notice
      refine h.congr (hl.trans ?_) (by simp) (by rw [hr]) hc ?_ hd
      · simp [Live, hphase, heq]
      · rw [he]
        split_ifs
        · simp [Ne.symm heq]
        · rfl
  | dropStreams hidle =>
    cases h with
    | unseen ho _ hr hc he => exact .unseen ho (by simp [Live, hidle]) hr hc he
    | live ho _ hr hc he => exact .lost ho (by simp [Live, hidle]) hr hc he rfl
    | credited ho _ hr he => exact .credited ho (by simp [Live, hidle]) hr he
    | refused ho _ hr he => exact .refused ho (by simp [Live, hidle]) hr he
    | lost ho _ hr hc he hd => exact .lost ho (by simp [Live, hidle]) hr hc he rfl

/-- Every stream of the remote has one of the fates. -/
structure Settled (s : RemoteStreams) : Prop extends Wf s where
  fate : ∀ id, s.IsRemote id → s.Fate id

theorem Change.isRemote (hc : Change s op t) (id : Int) : t.IsRemote id ↔ s.IsRemote id := by
  cases hc <;> simp [IsRemote]

theorem settled_inductive : machine.Inductive Settled where
  initial s h := by
    refine ⟨wf_initial h, fun id _ => ?_⟩
    rcases h with rfl | rfl <;>
      exact .unseen (by simp) (by simp [Live]) (by simp) (by simp) (by simp)
  step := by
    intro s op h hen
    obtain ⟨t, ht, hc⟩ := step_change h.toWf hen
    refine ⟨t, ht, h.toWf.change hc, fun id hremote => ?_⟩
    rw [hc.isRemote] at hremote
    exact (h.fate id hremote).change h.toWf hremote hc

/-- By the time the close of a stream of the remote has been handled, the remote has been allowed
one more stream for it exactly if `stream_open_cb` did not refuse it; it is never allowed more than
one. -/
theorem stream_credit_iff (h : machine.Reachable s) (hremote : s.IsRemote id) :
    s.extended.count id ≤ 1 ∧
      (id ∈ s.closed → (s.extended.count id = 1 ↔ id ∉ s.rejected)) := by
  cases (settled_inductive.reachable h).fate id hremote with
  | unseen _ _ _ hc he | live _ _ _ hc he | lost _ _ _ hc he _ =>
    exact ⟨by omega, fun hmem => absurd hmem hc⟩
  | credited _ _ hr he => exact ⟨by omega, fun _ => iff_of_true he hr⟩
  | refused _ _ hr he => exact ⟨by omega, fun _ => iff_of_false (by omega) (not_not_intro hr)⟩

/-- A stream that `stream_open_cb` refuses is reset and closed, and nothing is given back for it. -/
theorem refused_stream_not_credited :
    ∃ s, machine.Reachable s ∧ s.IsRemote 1 ∧ s.rejected = [1] ∧ s.closed = [1] ∧
      s.extended = [] := by
  have hrun : (machine.run {} [.streamOpened 1, .streamOpenCb false, .streamClosed 1 .reset,
      .streamClosed 1 .close]).map (fun s => (s.nextIncomingStreamId, s.rejected, s.closed,
        s.extended)) = some (5, [1], [1], []) := by decide
  obtain ⟨s, hs, hview⟩ := Option.map_eq_some_iff.mp hrun
  simp only [Prod.mk.injEq] at hview
  obtain ⟨hnext, hview⟩ := hview
  exact ⟨s, .run (.initial (.inl rfl)) hs, by simp [IsRemote, hnext], hview⟩

theorem stream_credit_iff_accepted :
    ∃ s, machine.Reachable s ∧ s.closed = [1] ∧ s.extended.count 1 = 1 := by
  have hrun : (machine.run {} [.streamOpened 1, .streamOpenCb true, .streamClosed 1 .reset,
      .streamCloseCb, .streamClosed 1 .close]).map (fun s => (s.nextIncomingStreamId, s.rejected,
        s.closed)) = some (5, [], [1]) := by decide
  obtain ⟨s, hs, hview⟩ := Option.map_eq_some_iff.mp hrun
  simp only [Prod.mk.injEq] at hview
  obtain ⟨hnext, hrejected, hclosed⟩ := hview
  have hreach : machine.Reachable s := .run (.initial (.inl rfl)) hs
  have hremote : s.IsRemote 1 := by simp [IsRemote, hnext]
  exact ⟨s, hreach, hclosed,
    ((stream_credit_iff hreach hremote).2 (by simp [hclosed])).mpr (by simp [hrejected])⟩

end Libquic.RemoteStreams
