import Libquic.Stream.ChunkOrder
import Libquic.Stream.ChunkSender

/-!
# Sending in chunks on the loop thread

`ChunkSender` runs a request, with all the destructors that it sets off, in one step. `ChunkOrder`
takes it apart for a second thread to come between. When `send_chunks` is called on the loop thread
the two agree: each operation of the first is a run of the second, in which what a watermark
callback does are steps of their own. So the chunks are appended in order there, too.
-/
namespace Libquic

open Lib

namespace ChunkSender

variable {gen : Nat → Bytes} {onAppend : Nat → List StreamCall} {depth n : Nat}
variable {s t : ChunkSender} {o : ChunkOrder}

/-- `o` is the same sender, on the same stream. -/
structure Shows (s : ChunkSender) (o : ChunkOrder) : Prop where
  nextChunk : o.nextChunk = s.nextChunk
  requested : o.requested = s.requested
  alive : o.alive = s.alive
  isClosing : o.isClosing = s.isClosing
  sendFin : o.sendFin = s.sendFin
  connOpen : o.connOpen = s.connOpen
  gone : o.gone = s.gone
  appended : o.appended = s.appended
  settled : o.Settled

/-- `o` is `s` between two operations. A stream that is destroyed before `send_chunks` is called has
no counterpart. -/
structure Inline (n : Nat) (s : ChunkSender) (o : ChunkOrder) : Prop where
  shows : s.gone = false → s.Shows o ∧ o.phase = .idle ∧ o.toMake = if s.begun then 0 else n
  appended : o.appended = s.appended
  fresh : s.begun = false → s.alive = []

theorem Shows.accepts (h : s.Shows o) : o.accepts = s.accepts := by
  simp only [ChunkOrder.accepts, ChunkSender.accepts, h.gone, h.isClosing, h.sendFin, h.connOpen]

theorem Shows.call (gen : Nat → Bytes) (n : Nat) (h : s.Shows o) (hgone : s.gone = false)
    (call : StreamCall) :
    ∃ o', (ChunkOrder.machine gen true n).Steps o o' ∧ (s.call call).Shows o' ∧
      o'.phase = o.phase ∧ o'.toMake = o.toMake := by
  have hgone' : o.gone = false := h.gone.trans hgone
  cases call with
  | sendFin =>
    exact ⟨_, .tail (i := .sendFin) .refl hgone' rfl, { h with sendFin := rfl }, rfl, rfl⟩
  | close =>
    exact ⟨_, .tail (i := .close) .refl hgone' rfl, { h with sendFin := rfl, isClosing := rfl },
      rfl, rfl⟩
  | loseConnection =>
    exact ⟨_, .tail (i := .loseConnection) .refl hgone' rfl, { h with connOpen := rfl }, rfl, rfl⟩

theorem call_gone (s : ChunkSender) (call : StreamCall) : (s.call call).gone = s.gone := by
  cases call <;> rfl

/-- What a callback does, a call at a time. -/
theorem Shows.calls (gen : Nat → Bytes) (n : Nat) (h : s.Shows o) (hgone : s.gone = false)
    (calls : List StreamCall) :
    ∃ o', (ChunkOrder.machine gen true n).Steps o o' ∧ (calls.foldl ChunkSender.call s).Shows o' ∧
      o'.phase = o.phase ∧ o'.toMake = o.toMake := by
  induction calls generalizing s o with
  | nil => exact ⟨o, .refl, h, rfl, rfl⟩
  | cons call calls ih =>
    obtain ⟨o₁, hsteps, hshows, hphase, hmake⟩ := h.call gen n hgone call
    obtain ⟨o₂, hsteps', hshows', hphase', hmake'⟩ := ih hshows ((call_gone s call).trans hgone)
    exact ⟨o₂, hsteps.trans hsteps', hshows', hphase'.trans hphase, hmake'.trans hmake⟩

/-! ## One request -/

/-- The loop thread right after a request: `send` is next, or nothing. -/
def asked (gen : Nat → Bytes) (o : ChunkOrder) : ChunkOrder :=
  match ChunkOrder.request gen o with
  | (none, o') => { o' with phase := .idle }
  | (some i, o') => { o' with phase := .sending i }

theorem step_pull (o : ChunkOrder) : o.step gen true .pull = .ok (asked gen o) := by
  unfold ChunkOrder.step asked
  rcases ChunkOrder.request gen o with ⟨_ | i, o'⟩ <;> rfl

theorem asked_stopped (h : ¬(o.nextChunk = true ∧ o.gone = false ∧ o.isClosing = false)) :
    asked gen o = { o with nextChunk := false, phase := .idle } := by
  unfold asked ChunkOrder.request
  by_cases hnext : o.nextChunk = true
  · have hend : (o.gone || o.isClosing) = true := by
      by_contra hopen
      exact h ⟨hnext, by simpa using hopen⟩
    rw [if_neg (by simp [hnext]), if_pos hend]
  · have hended : o.nextChunk = false := by simpa using hnext
    rw [if_pos (by simp [hended]), ← hended]

theorem asked_open (gen : Nat → Bytes) (hnext : o.nextChunk = true) (hgone : o.gone = false)
    (hclosing : o.isClosing = false) :
    asked gen o = if (gen o.requested).isEmpty then
        { o with nextChunk := false, requested := o.requested + 1, phase := .idle }
      else { o with
        requested := o.requested + 1, returned := o.returned ++ [o.requested]
        phase := .sending o.requested } := by
  unfold asked ChunkOrder.request
  rw [if_neg (by simp [hnext]), if_neg (by simp [hgone, hclosing])]
  split_ifs <;> rfl

/-- A request with all that comes of it, once the generator has been asked. -/
theorem queueNextChunk_steps (h : s.Shows o) (hgone : s.gone = false)
    (ht : queueNextChunk gen onAppend depth s = .ok t) :
    ∃ o', (ChunkOrder.machine gen true n).Steps (asked gen o) o' ∧ t.Shows o' ∧ o'.phase = .idle ∧
      o'.toMake = o.toMake := by
  induction depth generalizing s o with
  | zero => cases ht
  | succ depth ih =>
    by_cases hask : s.nextChunk = true ∧ s.gone = false ∧ s.isClosing = false
    case neg =>
      rw [queueNextChunk_stopped hask] at ht
      cases ht
      rw [← h.nextChunk, ← h.gone, ← h.isClosing] at hask
      rw [asked_stopped hask]
      exact ⟨_, .refl, { h with nextChunk := rfl }, rfl, rfl⟩
    obtain ⟨hnext, -, hclosing⟩ := hask
    have hsending := asked_open gen (h.nextChunk.trans hnext) (h.gone.trans hgone)
      (h.isClosing.trans hclosing)
    rw [queueNextChunk_open hnext hgone hclosing] at ht
    rw [h.requested] at hsending
    split_ifs at ht with hempty haccepts
    · rw [if_pos hempty] at hsending
      cases ht
      rw [hsending]
      exact ⟨_, .refl, { h with nextChunk := rfl, requested := rfl }, rfl, rfl⟩
    · rw [if_neg hempty] at hsending
      cases ht
      have haccepts' : (asked gen o).accepts = true := by
        rw [hsending]
        exact h.accepts.trans haccepts
      have hsend : (asked gen o).step gen true .send = .ok { asked gen o with
          alive := s.alive ++ [s.requested], appended := s.appended ++ [s.requested]
          phase := .idle } := by
        rw [hsending] at haccepts' ⊢
        rw [← h.alive, ← h.appended]
        exact congrArg Except.ok (ChunkOrder.sendImpl_accepted haccepts')
      have hshows : Shows { s with
          requested := s.requested + 1, late := s.late || !s.accepts
          alive := s.alive ++ [s.requested], appended := s.appended ++ [s.requested] }
          { asked gen o with
            alive := s.alive ++ [s.requested], appended := s.appended ++ [s.requested]
            phase := .idle } := by
        rw [hsending]
        exact { h with alive := rfl, appended := rfl, requested := rfl }
      obtain ⟨o', hsteps, hshows', hphase, hmake⟩ := hshows.calls gen n hgone
        (onAppend s.requested)
      refine ⟨o', .head (i := .send) ?_ hsend hsteps, hshows', hphase, hmake.trans ?_⟩
      · rw [hsending]
        exact ⟨h.gone.trans hgone, by simp [LoopPhase.chunk]⟩
      · rw [hsending]
    · rw [if_neg hempty] at hsending
      -- dropped: the chunk's destructor asks again
      have hdropped : (asked gen o).accepts = false := by
        rw [hsending]
        exact h.accepts.trans (by simpa using haccepts)
      have hsend : (asked gen o).step gen true .send =
          .ok { asked gen o with phase := .pulling } := by
        rw [hsending] at hdropped ⊢
        simp only [ChunkOrder.step, ChunkOrder.sendImpl_dropped hdropped]
      have hshows : Shows { s with requested := s.requested + 1, late := s.late || !s.accepts }
          { asked gen o with phase := .pulling } := by
        rw [hsending]
        exact { h with requested := rfl }
      obtain ⟨o', hsteps, hshows', hphase, hmake⟩ := ih hshows hgone ht
      have hgone' : (asked gen o).gone = false := by
        rw [hsending]
        exact h.gone.trans hgone
      refine ⟨o', .head (i := .send) ⟨hgone', ?_⟩ hsend
        (.head (i := .pull) ⟨hgone', rfl⟩ ?_ hsteps), hshows', hphase, hmake.trans ?_⟩
      · rw [hsending]
        simp [LoopPhase.chunk]
      · exact step_pull _
      · rw [hsending]

/-! ## The operations -/

theorem step_call {m : Nat} (hmake : o.toMake = m + 1) (hphase : o.phase = .idle) :
    o.step gen true .call = .ok (asked gen { o with toMake := m }) := by
  have hpred : o.toMake - 1 = m := by omega
  simp only [ChunkOrder.step, asked, hpred]
  rcases ChunkOrder.request_cases gen { o with toMake := m } with ⟨b, k, -, heq⟩ | heq
  · rw [heq]
    simp only [hphase]
  · rw [heq]
    rfl

/-- The loop of `make`. -/
theorem queueChunks_steps {m : Nat} (h : s.Shows o) (hgone : s.gone = false)
    (hphase : o.phase = .idle) (hmake : o.toMake = m)
    (ht : queueChunks gen onAppend depth m s = .ok t) :
    ∃ o', (ChunkOrder.machine gen true n).Steps o o' ∧ t.Shows o' ∧ o'.phase = .idle ∧
      o'.toMake = 0 ∧ t.begun = s.begun := by
  induction m generalizing s o with
  | zero =>
    cases ht
    exact ⟨o, .refl, h, hphase, hmake, rfl⟩
  | succ m ih =>
    obtain ⟨u, hu, hrest⟩ := bind_ok ht
    have hkept := queueNextChunk_kept hu
    have hshows : s.Shows { o with toMake := m } := { h with }
    obtain ⟨o₁, hsteps, hshows₁, hphase₁, hmake₁⟩ := queueNextChunk_steps (n := n) hshows hgone hu
    obtain ⟨o₂, hsteps', hshows₂, hphase₂, hmake₂, hbegun⟩ :=
      ih hshows₁ (hkept.gone.trans hgone) hphase₁ hmake₁ hrest
    have hcall : (ChunkOrder.machine gen true n).enabled o .call :=
      ⟨h.gone.trans hgone, by omega, h.settled.2, fun _ => hphase⟩
    exact ⟨o₂, .head hcall (step_call hmake hphase) (hsteps.trans hsteps'), hshows₂, hphase₂,
      hmake₂, hbegun.trans hkept.begun⟩

/-- The chunks of a destroyed stream change nothing but `next_chunk`. -/
theorem foldlM_release_gone {l : List Nat} (hgone : s.gone = true)
    (ht : l.foldlM (fun s _ => release gen onAppend depth s) s = .ok t) :
    t = { s with alive := s.alive.drop l.length, nextChunk := t.nextChunk } := by
  induction l generalizing s with
  | nil =>
    cases ht
    rfl
  | cons i l ih =>
    rw [List.foldlM_cons] at ht
    obtain ⟨u, hu, hrest⟩ := bind_ok ht
    cases depth with
    | zero => cases hu
    | succ depth =>
      rw [release, queueNextChunk_stopped (by simp [hgone])] at hu
      cases hu
      have heq := ih (s := { s with alive := s.alive.tail, nextChunk := false }) hgone hrest
      rw [heq]
      simp

theorem Inline.destroy (h : Inline n s o) (hgone : s.gone = false)
    (ht : s.destroy gen onAppend depth = .ok t) :
    ∃ o', (ChunkOrder.machine gen true n).Steps o o' ∧ Inline n t o' := by
  have heq := foldlM_release_gone (s := { s with gone := true }) rfl ht
  rw [List.drop_length] at heq
  obtain ⟨hshows, hphase, hmake⟩ := h.shows hgone
  have hinline {o' : ChunkOrder} (happended : o'.appended = s.appended) : Inline n t o' := by
    rw [heq]
    exact ⟨nofun, happended, fun _ => rfl⟩
  cases hbegun : s.begun with
  | false => exact ⟨o, .refl, hinline h.appended⟩
  | true =>
    rw [hbegun, if_pos rfl] at hmake
    exact ⟨_, .tail (i := .destroy) .refl
      ⟨hshows.gone.trans hgone, hmake, hshows.settled.2, hphase⟩ rfl, hinline h.appended⟩

theorem Inline.make (h : Inline n s o) (hbegun : s.begun = false) (hgone : s.gone = false)
    (ht : s.make gen onAppend depth n = .ok t) :
    ∃ o', (ChunkOrder.machine gen true n).Steps o o' ∧ Inline n t o' := by
  obtain ⟨hshows, hphase, hmake⟩ := h.shows hgone
  rw [hbegun] at hmake
  have hstart : Shows { s with begun := true } o := { hshows with }
  obtain ⟨o', hsteps, hshows', hphase', hmake', hbegun'⟩ :=
    queueChunks_steps (n := n) hstart hgone hphase hmake ht
  refine ⟨o', hsteps, fun _ => ⟨hshows', hphase', ?_⟩, hshows'.appended, fun hb => ?_⟩
  · rw [hbegun', hmake']
    rfl
  · rw [hbegun'] at hb
    cases hb

theorem Inline.release (h : Inline n s o) (halive : s.alive ≠ []) (hgone : s.gone = false)
    (ht : s.release gen onAppend depth = .ok t) :
    ∃ o', (ChunkOrder.machine gen true n).Steps o o' ∧ Inline n t o' := by
  obtain ⟨hshows, hphase, hmake⟩ := h.shows hgone
  have hbegun : s.begun = true := by
    by_contra hnot
    exact halive (h.fresh (by simpa using hnot))
  rw [hbegun, if_pos rfl] at hmake
  have hkept := queueNextChunk_kept ht
  have htail : Shows { s with alive := s.alive.tail }
      { o with alive := o.alive.tail, phase := .pulling } :=
    { hshows with alive := congrArg List.tail hshows.alive }
  obtain ⟨o', hsteps, hshows', hphase', hmake'⟩ := queueNextChunk_steps (n := n) htail hgone ht
  have hrelease : (ChunkOrder.machine gen true n).enabled o .release :=
    ⟨hshows.gone.trans hgone, hshows.alive ▸ halive, hphase, fun _ => hmake⟩
  refine ⟨o', .head hrelease rfl (.head (i := .pull) ⟨hshows.gone.trans hgone, rfl⟩ (step_pull _)
    hsteps), fun _ => ⟨hshows', hphase', ?_⟩, hshows'.appended, fun hb => ?_⟩
  · rw [hkept.begun, if_pos hbegun]
    exact hmake'.trans hmake
  · rw [hkept.begun, hbegun] at hb
    cases hb

/-- On the loop thread the operations of the sender are runs of its small steps. -/
theorem simulation_inline (gen : Nat → Bytes) (onAppend : Nat → List StreamCall) (depth n : Nat) :
    Machine.Simulation (machine gen onAppend depth n) (ChunkOrder.machine gen true n)
      (Inline n) where
  initial := by
    rintro s rfl
    refine ⟨{ toMake := n }, rfl, fun _ => ⟨?_, rfl, rfl⟩, rfl, fun _ => rfl⟩
    exact ⟨rfl, rfl, rfl, rfl, rfl, rfl, rfl, rfl, ⟨rfl, rfl⟩⟩
  step := by
    intro s op t o _ _ h hen ht
    cases op with
    | make => exact h.make hen.1 hen.2 ht
    | release => exact h.release hen.1 hen.2 ht
    | call call =>
      cases ht
      obtain ⟨hshows, hphase, hmake⟩ := h.shows hen
      obtain ⟨o', hsteps, hshows', hphase', hmake'⟩ := hshows.call gen n hen call
      refine ⟨o', hsteps, fun _ => ⟨hshows', hphase'.trans hphase, hmake'.trans ?_⟩,
        hshows'.appended, ?_⟩
      · rw [hmake]
        cases call <;> rfl
      · cases call <;> exact h.fresh
    | destroy => exact h.destroy hen ht

/-- On the loop thread chunks are appended in the order in which the generator returned them,
whatever happens to the stream. -/
theorem appended_sorted (h : (machine gen onAppend depth n).Reachable s) :
    s.appended.Pairwise (· < ·) := by
  obtain ⟨o, ho, hinline⟩ := (simulation_inline gen onAppend depth n).reachable h
  have horder := ((ChunkOrder.inOrder_inductive gen true n).reachable
    (ChunkOrder.orderly_reachable (.inl rfl) ho)).2
  rw [← hinline.appended]
  exact horder.sorted.sublist horder.first.sublist

end ChunkSender

end Libquic
