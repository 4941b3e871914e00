import Libquic.Lib.Machine
import Libquic.Stream.Basic

/-!
# The job queue

`JobQueue` lets any thread hand a job to the loop thread. `call_soon` and the two swaps of the
queue hold its mutex, so each is one step here, and threads interleave between them. A pass of
`process_job_queue` swaps the queue out and starts its jobs one by one for as long as the
queue is running; `stop` runs on the loop thread only, and a call from another thread waits for
it to be run there. A job that throws just ends.
-/
namespace Libquic

open Lib

/-- Where the loop thread is: outside of a pass, between two jobs of one, or inside a job. -/
inductive JobPhase where
  | idle | between | inJob
  deriving DecidableEq, Repr

structure JobQueue (α : Type) where
  jobQueue : List α := []
  /-- What is left of the batch of the current pass. -/
  swappedQueue : List α := []
  running : Bool := true
  phase : JobPhase := .idle
  /-- The calls of `call_soon` that did not throw, the jobs started, and how many calls had been
  accepted when the last pass began. History variables: nothing reads them. -/
  accepted : List α := []
  started : List α := []
  acceptedBefore : Nat := 0
  deriving DecidableEq, Repr

namespace JobQueue

variable {α : Type}

def callSoon (s : JobQueue α) (job : α) : Except String (JobQueue α) :=
  if s.running then
    .ok { s with jobQueue := s.jobQueue ++ [job], accepted := s.accepted ++ [job] }
  else .error "Attempting to queue job onto stopped loop."

def stop (s : JobQueue α) : JobQueue α :=
  { s with running := false, jobQueue := [] }

/-- The swap at the start of `process_job_queue`. -/
def beginPass (s : JobQueue α) : JobQueue α :=
  { s with
    jobQueue := [], swappedQueue := s.jobQueue, phase := .between
    acceptedBefore := s.accepted.length }

def startJob (s : JobQueue α) : Except Fault (JobQueue α) :=
  match s.swappedQueue with
  | [] => .error .outOfRange
  | job :: rest =>
    .ok { s with swappedQueue := rest, phase := .inJob, started := s.started ++ [job] }

/-- The rest of the batch is destroyed with the local queue. -/
def endPass (s : JobQueue α) : JobQueue α := { s with swappedQueue := [], phase := .idle }

inductive Op (α : Type) where
  /-- By any thread, the loop thread inside a job included. -/
  | callSoon (job : α)
  | beginPass
  | startJob
  /-- The job returns, or throws and is caught. -/
  | endJob (threw : Bool)
  | endPass
  | stop
  deriving DecidableEq, Repr

/-- The loop thread's own steps come in the order of the code, and `stop` runs while it is
outside of a pass or inside a job. -/
def Enabled (s : JobQueue α) : Op α → Prop
  | .callSoon _ => True
  | .beginPass => s.phase = .idle
  | .startJob => s.phase = .between ∧ s.swappedQueue ≠ [] ∧ s.running = true
  | .endJob _ => s.phase = .inJob
  | .endPass => s.phase = .between ∧ (s.swappedQueue = [] ∨ s.running = false)
  | .stop => s.phase ≠ .between

def step (s : JobQueue α) : Op α → Except Fault (JobQueue α)
  | .callSoon job => match s.callSoon job with
    | .ok t => .ok t
    | .error _ => .ok s
  | .beginPass => .ok s.beginPass
  | .startJob => s.startJob
  | .endJob _ => .ok { s with phase := .between }
  | .endPass => .ok s.endPass
  | .stop => .ok s.stop

def machine (α : Type) : Machine (JobQueue α) (Op α) Fault where
  initial s := s = {}
  enabled := Enabled
  step := step

/-! ## The invariant -/

structure Inv (s : JobQueue α) : Prop where
  order : s.started ++ s.swappedQueue <+: s.accepted
  all : s.running = true → s.accepted = s.started ++ s.swappedQueue ++ s.jobQueue
  stopped : s.running = false → s.jobQueue = []
  idle : s.phase = .idle → s.swappedQueue = []
  batch : s.running = true → s.phase ≠ .idle →
    s.acceptedBefore ≤ (s.started ++ s.swappedQueue).length

variable {s t : JobQueue α}

theorem Inv.callSoon (h : Inv s) (job : α) : ∃ t, s.step (.callSoon job) = .ok t ∧ Inv t := by
  by_cases hrun : s.running = true
  · refine ⟨{ s with jobQueue := s.jobQueue ++ [job], accepted := s.accepted ++ [job] },
      by simp [step, JobQueue.callSoon, hrun], ?_⟩
    refine { h with
      order := h.order.trans (List.prefix_append _ _)
      all := fun _ => ?_
      stopped := fun hstopped => ?_ }
    · simp [h.all hrun]
    · simp [hrun] at hstopped
  · exact ⟨s, by simp [step, JobQueue.callSoon, hrun], h⟩

/-- A pass takes everything accepted so far into its batch. -/
theorem Inv.beginPass (h : Inv s) (hidle : s.phase = .idle) : Inv s.beginPass := by
  have hnone := h.idle hidle
  have horder := h.order
  rw [hnone, List.append_nil] at horder
  cases hrun : s.running with
  | true =>
    have hall := h.all hrun
    rw [hnone, List.append_nil] at hall
    refine ⟨?_, fun _ => ?_, fun _ => rfl, fun hphase => ?_, fun _ _ => ?_⟩
    · simp [JobQueue.beginPass, hall]
    · simp [JobQueue.beginPass, hall]
    · cases hphase
    · simp [JobQueue.beginPass, hall]
  | false =>
    refine ⟨?_, fun hr => ?_, fun _ => rfl, fun hphase => ?_, fun hr => ?_⟩
    · simpa [JobQueue.beginPass, h.stopped hrun] using horder
    · simp [JobQueue.beginPass, hrun] at hr
    · cases hphase
    · simp [JobQueue.beginPass, hrun] at hr

/-- The next job of the batch goes from its front to the end of those started. -/
theorem Inv.startJob (h : Inv s) (hne : s.swappedQueue ≠ []) :
    ∃ t, s.startJob = .ok t ∧ Inv t := by
  obtain ⟨job, rest, heq⟩ := List.exists_cons_of_ne_nil hne
  have hmove : s.started ++ [job] ++ rest = s.started ++ s.swappedQueue := by simp [heq]
  refine ⟨{ s with swappedQueue := rest, phase := .inJob, started := s.started ++ [job] },
    by simp [JobQueue.startJob, heq], ?_⟩
  refine ⟨?_, fun hr => ?_, h.stopped, fun hphase => ?_, fun hr _ => ?_⟩
  · exact hmove ▸ h.order
  · exact (h.all hr).trans (by rw [hmove])
  · cases hphase
  · by_cases hidle : s.phase = .idle
    · exact absurd (h.idle hidle) hne
    · exact hmove ▸ h.batch hr hidle

theorem Inv.endPass (h : Inv s) (hend : s.swappedQueue = [] ∨ s.running = false) :
    Inv s.endPass := by
  refine ⟨?_, fun hr => ?_, h.stopped, fun _ => rfl, fun _ hphase => absurd rfl hphase⟩
  · simpa [JobQueue.endPass] using (List.prefix_append _ _).trans h.order
  · rcases hend with hnone | hstopped
    · simpa [JobQueue.endPass, hnone] using h.all hr
    · exact absurd hr (by simp [JobQueue.endPass, hstopped])

theorem Inv.stop (h : Inv s) : Inv s.stop where
  order := h.order
  all hr := by cases hr
  stopped _ := rfl
  idle := h.idle
  batch hr := by cases hr

theorem machine_inductive : (machine α).Inductive Inv where
  initial := by
    rintro s rfl
    exact ⟨List.prefix_refl _, fun _ => rfl, fun _ => rfl, fun _ => rfl, fun _ _ => Nat.zero_le _⟩
  step := by
    intro s op h hen
    cases op with
    | callSoon job => exact h.callSoon job
    | beginPass => exact ⟨_, rfl, h.beginPass hen⟩
    | startJob => exact h.startJob hen.2.1
    | endJob threw =>
      have hinJob : s.phase ≠ .idle := by
        intro hidle
        cases hidle.symm.trans hen
      refine ⟨_, rfl, { h with idle := fun hphase => ?_, batch := fun hr _ => h.batch hr hinJob }⟩
      cases hphase
    | endPass => exact ⟨_, rfl, h.endPass hen.2⟩
    | stop => exact ⟨_, rfl, h.stop⟩

/-! ## Order, completeness of a pass, and the end -/

/-- A pass that ends with the queue running has started all that it found. -/
theorem Inv.pass_complete (h : Inv s) (hen : s.Enabled .endPass) (hrun : s.running = true) :
    s.accepted.take s.acceptedBefore <+: s.started := by
  obtain ⟨hphase, hend⟩ := hen
  have hnone : s.swappedQueue = [] := by
    rcases hend with hnone | hstopped
    · exact hnone
    · exact absurd hrun (by simp [hstopped])
  have hbatch := h.batch hrun (by simp [hphase])
  have hall := h.all hrun
  simp only [hnone, List.append_nil] at hbatch hall
  rw [hall, List.take_append_of_le_length hbatch]
  exact List.take_prefix _ _

theorem step_of_stopped {op : Op α} (hstopped : s.running = false) (hen : s.Enabled op)
    (hstep : s.step op = .ok t) :
    t.started = s.started ∧ t.accepted = s.accepted ∧ t.running = false := by
  cases op with
  | startJob => exact absurd hen.2.2 (by simp [hstopped])
  | callSoon job =>
    simp only [step, JobQueue.callSoon, hstopped] at hstep
    cases hstep
    exact ⟨rfl, rfl, hstopped⟩
  | stop =>
    cases hstep
    exact ⟨rfl, rfl, rfl⟩
  | beginPass | endJob _ | endPass =>
    cases hstep
    exact ⟨rfl, rfl, hstopped⟩

/-- In every state that threads, jobs, passes and stops reach, the jobs started are a prefix of
those accepted, so each starts at most once and in the order of acceptance. A pass that ends with
the queue running has started whatever was accepted before it began. Once the queue is stopped it
stays so, no job starts and every `call_soon` throws. No step fails. -/
theorem jobs_start_in_order {s : JobQueue α} (h : (machine α).Reachable s) :
    s.started <+: s.accepted ∧
    (s.Enabled .endPass → s.running = true → s.accepted.take s.acceptedBefore <+: s.started) ∧
    (s.running = false → (∀ job, ∃ what, s.callSoon job = .error what) ∧
      ∀ op t, s.Enabled op → s.step op = .ok t →
        t.started = s.started ∧ t.accepted = s.accepted ∧ t.running = false) ∧
    ∀ op, s.Enabled op → ∃ t, s.step op = .ok t := by
  have hinv := machine_inductive.reachable h
  refine ⟨(List.prefix_append _ _).trans hinv.order, hinv.pass_complete, fun hstopped => ?_,
    fun op hen => machine_inductive.progress h hen⟩
  exact ⟨fun job => ⟨_, by rw [JobQueue.callSoon, if_neg (by simp [hstopped])]⟩,
    fun op t hen hstep => step_of_stopped hstopped hen hstep⟩

instance (s : JobQueue α) [DecidableEq α] : (op : Op α) → Decidable (s.Enabled op)
  | .callSoon _ => inferInstanceAs (Decidable True)
  | .beginPass => inferInstanceAs (Decidable (_ = _))
  | .startJob => inferInstanceAs (Decidable (_ ∧ _ ∧ _))
  | .endJob _ => inferInstanceAs (Decidable (_ = _))
  | .endPass => inferInstanceAs (Decidable (_ ∧ _))
  | .stop => inferInstanceAs (Decidable (_ ≠ _))

instance [DecidableEq α] (s : JobQueue α) (op : Op α) : Decidable ((machine α).enabled s op) :=
  inferInstanceAs (Decidable (s.Enabled op))

/-- The second of three jobs queues a fourth, stops the queue and throws. -/
theorem jobs_start_in_order_stopped :
    ∃ s, (machine Nat).Reachable s ∧ s.running = false ∧ s.accepted = [1, 2, 3, 4] ∧
      s.started = [1, 2] ∧ s.started <+: s.accepted := by
  have hrun : ((machine Nat).run {}
      [.callSoon 1, .callSoon 2, .callSoon 3, .beginPass, .startJob, .endJob false, .startJob,
        .callSoon 4, .stop, .callSoon 5, .endJob true, .endPass]).map
      (fun s => (s.running, s.accepted, s.started)) = some (false, [1, 2, 3, 4], [1, 2]) := by
    decide
  obtain ⟨s, hs, hview⟩ := Option.map_eq_some_iff.mp hrun
  have h : (machine Nat).Reachable s := Machine.Reachable.run (.initial rfl) hs
  obtain ⟨hrunning, hlists⟩ := Prod.mk.inj hview
  obtain ⟨haccepted, hstarted⟩ := Prod.mk.inj hlists
  exact ⟨s, h, hrunning, haccepted, hstarted, (jobs_start_in_order h).1⟩

end JobQueue
end Libquic
