import Libquic.Connection.RemoteStreams

/-!
# Ids for queued incoming streams

`queue_incoming_stream` promises the next id that has not been seen. One counter stands for it,
and `stream_opened` moves it on only when the id that opens is the counter itself. So the promise
is kept as long as no stream is first seen ahead of the counter; once one is, enough calls of
`queue_incoming_stream` hand its id out a second time.
-/
namespace Libquic.RemoteStreams

open Lib

variable {s t : RemoteStreams} {op : Op}

/-- The stream that opens is not ahead of the counter. -/
def InOrder (s : RemoteStreams) : Op → Prop
  | .streamOpened id => id ≤ s.nextIncomingStreamId
  | _ => True

/-- The runs in which every step is in order. -/
def inOrder : Machine RemoteStreams Op Fault where
  initial := Initial
  enabled s op := s.Enabled op ∧ s.InOrder op
  step := step

instance (s : RemoteStreams) : (op : Op) → Decidable (s.InOrder op)
  | .streamOpened _ => inferInstanceAs (Decidable (_ ≤ _))
  | .queueIncomingStream | .makeStream | .openStream _ | .streamOpenCb _ | .streamClosed _ _
  | .streamCloseCb | .startClosing | .clearQueue | .dropStreams => inferInstanceAs (Decidable True)

instance (s : RemoteStreams) (op : Op) : Decidable (inOrder.enabled s op) :=
  inferInstanceAs (Decidable (machine.enabled s op ∧ s.InOrder op))

/-- The counter is ahead of everything that was opened, and no queued id was. -/
structure Ahead (s : RemoteStreams) : Prop extends Wf s where
  opened : ∀ id ∈ s.opened, id < s.nextIncomingStreamId
  unseen : ∀ id ref, s.streamQueue id = some ref → id ∉ s.opened

theorem Ahead.change (h : s.Ahead) (horder : s.InOrder op) (hc : Change s op t) : t.Ahead := by
  have hwf := h.toWf.change hc
  have hqueue := h.queue
  obtain ⟨-, hopened, hunseen⟩ := h
  cases hc with
  | queue hcases =>
    -- the counter itself is ahead of everything opened
    refine ⟨hwf, ?_, ?_⟩
    · grind
    · rcases hcases with rfl | rfl <;> grind [Function.update_apply]
  | openQueued hget _ hnew =>
    obtain ⟨-, hlt, -⟩ := hqueue _ _ hget
    refine ⟨hwf, ?_, ?_⟩ <;> grind [Function.update_apply]
  | openNext hnone hnew _ _ => refine ⟨hwf, ?_, ?_⟩ <;> grind
  | openOther hnone hnew _ _ _ hne =>
    have hle : _ ≤ s.nextIncomingStreamId := horder
    refine ⟨hwf, ?_, ?_⟩ <;> grind
  | unknown _ _ _ _ | ended _ => exact ⟨hwf, by simpa using hopened, by simpa using hunseen⟩
  | clearQueue | dropStreams _ => exact ⟨hwf, hopened, by simp⟩
  | _ => exact ⟨hwf, hopened, hunseen⟩

theorem ahead_inductive : inOrder.Inductive Ahead where
  initial s h := by
    refine ⟨wf_initial h, ?_, ?_⟩ <;> rcases h with rfl | rfl <;> simp
  step := by
    intro s op h hen
    obtain ⟨t, ht, hc⟩ := step_change h.toWf hen.1
    exact ⟨t, ht, h.change hen.2 hc⟩

theorem Ahead.disjoint (h : s.Ahead) (id : Int) :
    s.streams id = none ∨ s.streamQueue id = none := by
  cases hget : s.streamQueue id with
  | none => exact .inr rfl
  | some ref => exact .inl (h.toWf.streams_eq_none (h.queue id ref hget).1 (h.unseen id ref hget))

/-- A queued id opens as the queued object. -/
theorem Ahead.opens_queued (h : s.Ahead) {id : Int} {ref : Nat}
    (hget : s.streamQueue id = some ref) :
    ∃ t, s.step (.streamOpened id) = .ok t ∧ t.streams id = some ref ∧ t.streamQueue id = none := by
  have hnone := h.toWf.streams_eq_none (h.queue id ref hget).1 (h.unseen id ref hget)
  simp only [step, streamOpened, hget, emplace_ok hnone, ok_bind]
  exact ⟨_, rfl, Function.update_self .., Function.update_self ..⟩

/-- Calls of `queue_incoming_stream` move the counter on. -/
theorem steps_queue {r s : RemoteStreams} (h : machine.Steps r s) (n : Nat) :
    ∃ t, machine.Steps r t ∧ t.opened = s.opened ∧
      t.nextIncomingStreamId = s.nextIncomingStreamId + 4 * n := by
  induction n with
  | zero => exact ⟨s, h, rfl, by simp⟩
  | succ n ih =>
    obtain ⟨t, hsteps, hopened, hnext⟩ := ih
    refine ⟨t.queueIncomingStream, hsteps.tail (i := .queueIncomingStream) trivial rfl, hopened, ?_⟩
    simp only [queueIncomingStream, hnext]
    push_cast
    ring

/-- Once a stream is seen ahead of the counter, calls of `queue_incoming_stream` get there. -/
theorem Ahead.overtaken (h : s.Ahead) {id : Int} (hen : s.Enabled (.streamOpened id))
    (hid : s.nextIncomingStreamId < id) :
    ∃ t, machine.Steps s t ∧ id ∈ t.opened ∧ t.nextIncomingStreamId = id := by
  obtain ⟨n, hn⟩ : ∃ n : Nat, id = s.nextIncomingStreamId + 4 * n := by
    have hremote : id % 4 = s.nextIncomingStreamId % 4 := hen.2.2.1
    exact ⟨((id - s.nextIncomingStreamId) / 4).toNat, by omega⟩
  have hnone : s.streamQueue id = none := by
    cases hget : s.streamQueue id with
    | none => rfl
    | some ref =>
      have := (h.queue id ref hget).2.1
      omega
  have hopen : machine.step s (.streamOpened id) = .ok { s with
      count := s.count + 1, phase := .opening id s.count, opened := s.opened ++ [id] } := by
    simp only [machine, step, streamOpened, hnone]
    rw [if_neg (by omega)]
  have hfirst : machine.Steps s _ := .tail (i := .streamOpened id) .refl hen hopen
  obtain ⟨t, hsteps, hopened, hnext⟩ := steps_queue hfirst n
  exact ⟨t, hsteps, by simp [hopened], hnext.trans hn.symm⟩

/-- As long as no stream is first seen ahead of the counter, `queue_incoming_stream` gives ids that
were neither opened nor given before, no id is in both maps, and a queued id opens as the queued
object. A stream seen ahead of the counter breaks that: its id is then given out as well. -/
theorem queued_ids_unseen (h : inOrder.Reachable s) :
    (s.queueIncomingStream.given = s.given ++ [(s.nextIncomingStreamId, s.count)] ∧
      s.nextIncomingStreamId ∉ s.opened ∧ s.nextIncomingStreamId ∉ s.given.map Prod.fst) ∧
    (s.given.map Prod.fst).Nodup ∧
    (∀ id, s.streams id = none ∨ s.streamQueue id = none) ∧
    (∀ id ref, s.streamQueue id = some ref → (id, ref) ∈ s.given ∧
      ∃ t, s.step (.streamOpened id) = .ok t ∧ t.streams id = some ref ∧
        t.streamQueue id = none) ∧
    (∀ op, s.Enabled op → ∃ t, s.step op = .ok t) ∧
    ∀ id, s.Enabled (.streamOpened id) → s.nextIncomingStreamId < id →
      ∃ t, machine.Steps s t ∧ id ∈ t.opened ∧ t.nextIncomingStreamId = id := by
  have hahead := ahead_inductive.reachable h
  refine ⟨⟨rfl, ?_, ?_⟩, hahead.distinct, hahead.disjoint, ?_, ?_, ?_⟩
  · intro hmem
    exact (hahead.opened _ hmem).false
  · intro hmem
    obtain ⟨entry, hentry, heq⟩ := List.mem_map.mp hmem
    have := hahead.given entry hentry
    omega
  · intro id ref hget
    exact ⟨(hahead.queue id ref hget).2.2, hahead.opens_queued hget⟩
  · intro op hen
    obtain ⟨t, ht, -⟩ := step_change hahead.toWf hen
    exact ⟨t, ht⟩
  · intro id hen hid
    exact hahead.overtaken hen hid

/-- Stream 5 is seen before stream 1; the second call of `queue_incoming_stream` gives 5. -/
theorem seen_id_given :
    ∃ s, machine.Reachable s ∧ s.opened = [5] ∧ s.given = [(1, 1), (5, 2)] ∧
      s.streams 5 = some 0 ∧ s.streamQueue 5 = some 2 := by
  have hrun : (machine.run {} [.streamOpened 5, .streamOpenCb true, .queueIncomingStream,
      .queueIncomingStream]).map (fun s => (s.opened, s.given, s.streams 5, s.streamQueue 5)) =
      some ([5], [(1, 1), (5, 2)], some 0, some 2) := by decide
  obtain ⟨s, hs, hview⟩ := Option.map_eq_some_iff.mp hrun
  simp only [Prod.mk.injEq] at hview
  exact ⟨s, .run (.initial (.inl rfl)) hs, hview⟩

theorem queued_ids_unseen_in_order :
    ∃ s t, inOrder.Reachable s ∧ s.opened = [1] ∧ s.streamQueue 5 = some 1 ∧
      s.nextIncomingStreamId ∉ s.opened ∧ s.step (.streamOpened 5) = .ok t ∧
      t.streams 5 = some 1 := by
  have hrun : (inOrder.run {} [.streamOpened 1, .queueIncomingStream, .streamOpenCb true]).map
      (fun s => (s.opened, s.streamQueue 5)) = some ([1], some 1) := by decide
  obtain ⟨s, hs, hview⟩ := Option.map_eq_some_iff.mp hrun
  obtain ⟨hopened, hqueue⟩ := Prod.mk.inj hview
  have hreach : inOrder.Reachable s := .run (.initial (.inl rfl)) hs
  obtain ⟨⟨-, hfresh, -⟩, -, -, hopens, -, -⟩ := queued_ids_unseen hreach
  obtain ⟨-, t, ht, hstream, -⟩ := hopens 5 1 hqueue
  exact ⟨s, t, hreach, hopened, hqueue, hfresh, ht, hstream⟩

end Libquic.RemoteStreams
