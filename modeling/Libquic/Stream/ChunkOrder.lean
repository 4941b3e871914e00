import Libquic.Lib.Machine
import Libquic.Stream.Basic

/-!
# Sending in chunks from two threads

`send_chunks` may be called on any thread. Off the loop thread the calling thread asks the
generator for the first chunks, and each `send` queues a job that appends its chunk later. The
destructor of a chunk runs on the loop thread, which asks the same generator and appends what it
gets inline. The two threads interleave here between requests, queued jobs and appends.

A request, which is the check of `next_chunk` with the call of the generator, is one step. The
source has nothing that keeps the two threads apart there, so this is the kindest reading of it.
-/
namespace Libquic

open Lib

/-- What the loop thread is doing with this sender. -/
inductive LoopPhase where
  | idle
  /-- In the destructor of a chunk, about to ask for the next one. -/
  | pulling
  /-- In `send`, with the chunk just returned. -/
  | sending (chunk : Nat)
  deriving DecidableEq, Repr

namespace LoopPhase

def chunk : LoopPhase → List Nat
  | .sending i => [i]
  | _ => []

/-- How many of the chunks that may be alive at once the phase accounts for. -/
def slots : LoopPhase → Nat
  | .idle => 0
  | _ => 1

end LoopPhase

/-- A chunk is named by the call of the generator that returned it. -/
structure ChunkOrder where
  /-- `next_chunk` has not been reset. -/
  nextChunk : Bool := true
  requested : Nat := 0
  /-- How many rounds of the loop in `make` are left, and the chunk it has got and not yet sent. -/
  toMake : Nat := 0
  holding : Option Nat := none
  /-- The queued jobs of `send_impl`. -/
  jobs : List Nat := []
  phase : LoopPhase := .idle
  /-- The chunks in the send buffer. -/
  alive : List Nat := []
  isClosing : Bool := false
  sendFin : Bool := false
  connOpen : Bool := true
  gone : Bool := false
  /-- The chunks returned by the generator and those appended to the stream, in order. History
  variables: nothing reads them. -/
  returned : List Nat := []
  appended : List Nat := []
  deriving DecidableEq, Repr

namespace ChunkOrder

/-- Whether `send_impl` takes a chunk. -/
def accepts (s : ChunkOrder) : Bool := !s.gone && !s.isClosing && !s.sendFin && s.connOpen

/-- `queue_next_chunk` up to the call of `send`. -/
def request (gen : Nat → Bytes) (s : ChunkOrder) : Option Nat × ChunkOrder :=
  if !s.nextChunk then (none, s)
  else if s.gone || s.isClosing then (none, { s with nextChunk := false })
  else if (gen s.requested).isEmpty then
    (none, { s with nextChunk := false, requested := s.requested + 1 })
  else
    (some s.requested,
      { s with requested := s.requested + 1, returned := s.returned ++ [s.requested] })

/-- The body of the job in `send_impl`. A chunk that is dropped is destroyed on the spot. -/
def sendImpl (s : ChunkOrder) (i : Nat) : ChunkOrder :=
  if s.accepts then
    { s with alive := s.alive ++ [i], appended := s.appended ++ [i], phase := .idle }
  else { s with phase := .pulling }

inductive Op where
  /-- The next round of `make`, up to the call of `send`. -/
  | call
  /-- `send` off the loop thread. -/
  | post
  | runJob
  | release
  /-- The request of a chunk's destructor. -/
  | pull
  /-- `send` on the loop thread. -/
  | send
  | sendFin
  | close
  | loseConnection
  | destroy
  deriving DecidableEq, Repr

variable (gen : Nat → Bytes) (onLoop : Bool)

/-- While `make` runs on the loop thread, that thread does nothing else. -/
def Enabled (s : ChunkOrder) : Op → Prop
  | .call => s.gone = false ∧ 0 < s.toMake ∧ s.holding = none ∧ (onLoop = true → s.phase = .idle)
  | .post => s.gone = false ∧ s.holding ≠ none
  | .runJob => s.gone = false ∧ s.jobs ≠ [] ∧ s.phase = .idle ∧ (onLoop = true → s.toMake = 0)
  | .release => s.gone = false ∧ s.alive ≠ [] ∧ s.phase = .idle ∧ (onLoop = true → s.toMake = 0)
  | .pull => s.gone = false ∧ s.phase = .pulling
  | .send => s.gone = false ∧ s.phase.chunk ≠ []
  | .destroy => s.gone = false ∧ s.toMake = 0 ∧ s.holding = none ∧ s.phase = .idle
  | _ => s.gone = false

instance (s : ChunkOrder) : (op : Op) → Decidable (s.Enabled onLoop op)
  | .call => inferInstanceAs (Decidable (_ ∧ _ ∧ _ ∧ (_ → _)))
  | .post => inferInstanceAs (Decidable (_ ∧ _))
  | .runJob => inferInstanceAs (Decidable (_ ∧ _ ∧ _ ∧ (_ → _)))
  | .release => inferInstanceAs (Decidable (_ ∧ _ ∧ _ ∧ (_ → _)))
  | .pull => inferInstanceAs (Decidable (_ ∧ _))
  | .send => inferInstanceAs (Decidable (_ ∧ _))
  | .destroy => inferInstanceAs (Decidable (_ ∧ _ ∧ _ ∧ _))
  | .sendFin => inferInstanceAs (Decidable (_ = _))
  | .close => inferInstanceAs (Decidable (_ = _))
  | .loseConnection => inferInstanceAs (Decidable (_ = _))

/-- A chunk got by `make` goes to the stream inline or waits to be queued. -/
def gotten (s : ChunkOrder) (i : Nat) : ChunkOrder :=
  if onLoop then { s with phase := .sending i } else { s with holding := some i }

def step (s : ChunkOrder) : Op → Except Fault ChunkOrder
  | .call =>
    match request gen { s with toMake := s.toMake - 1 } with
    | (none, t) => .ok t
    | (some i, t) => .ok (t.gotten onLoop i)
  | .post =>
    match s.holding with
    | none => .error .outOfRange
    | some i => .ok { s with holding := none, jobs := s.jobs ++ [i] }
  | .runJob =>
    match s.jobs with
    | [] => .error .outOfRange
    | i :: rest => .ok (sendImpl { s with jobs := rest } i)
  | .release => .ok { s with alive := s.alive.tail, phase := .pulling }
  | .pull =>
    match request gen s with
    | (none, t) => .ok { t with phase := .idle }
    | (some i, t) => .ok { t with phase := .sending i }
  | .send =>
    match s.phase with
    | .sending i => .ok (s.sendImpl i)
    | _ => .error .outOfRange
  | .sendFin => .ok { s with sendFin := true }
  | .close => .ok { s with isClosing := true, sendFin := true }
  | .loseConnection => .ok { s with connOpen := false }
  -- the jobs go with the stream, and the destructors of the chunks find it gone
  | .destroy => .ok { s with gone := true, nextChunk := false, jobs := [], alive := [] }

/-- Every chunk that the calling thread got has been appended or dropped. -/
def Settled (s : ChunkOrder) : Prop := s.jobs = [] ∧ s.holding = none

instance (s : ChunkOrder) : Decidable s.Settled := inferInstanceAs (Decidable (_ ∧ _))

/-- The loop thread gets no chunk of its own while one of the calling thread is under way. -/
def Orderly (s : ChunkOrder) : Op → Prop
  | .pull => (request gen s).1.isSome → s.Settled
  | _ => True

def machine (n : Nat) : Machine ChunkOrder Op Fault where
  initial s := s = { toMake := n }
  enabled s := s.Enabled onLoop
  step := step gen onLoop

/-- The runs in which every step is orderly. -/
def orderly (n : Nat) : Machine ChunkOrder Op Fault where
  initial s := s = { toMake := n }
  enabled s op := s.Enabled onLoop op ∧ s.Orderly gen op
  step := step gen onLoop

/-! ## What a step can do -/

variable {gen onLoop} {s t : ChunkOrder} {op : Op} {n : Nat}

theorem request_cases (gen : Nat → Bytes) (s : ChunkOrder) :
    (∃ b k, s.requested ≤ k ∧ request gen s = (none, { s with nextChunk := b, requested := k })) ∨
    request gen s = (some s.requested,
      { s with requested := s.requested + 1, returned := s.returned ++ [s.requested] }) := by
  unfold request
  split_ifs
  · exact .inl ⟨s.nextChunk, s.requested, le_rfl, rfl⟩
  · exact .inl ⟨false, s.requested, le_rfl, rfl⟩
  · exact .inl ⟨false, s.requested + 1, Nat.le_succ _, rfl⟩
  · exact .inr rfl

theorem sendImpl_accepted {i : Nat} (h : s.accepts = true) :
    s.sendImpl i =
      { s with alive := s.alive ++ [i], appended := s.appended ++ [i], phase := .idle } :=
  if_pos h

theorem sendImpl_dropped {i : Nat} (h : s.accepts = false) :
    s.sendImpl i = { s with phase := .pulling } :=
  if_neg (by simp [h])

/-- Every outcome of every step, with the facts it rests on. -/
inductive Change (gen : Nat → Bytes) (onLoop : Bool) (s : ChunkOrder) : Op → ChunkOrder → Prop
  | callEnd {m b k} : s.toMake = m + 1 → s.requested ≤ k →
      Change gen onLoop s .call { s with toMake := m, nextChunk := b, requested := k }
  | callInline {m} : onLoop = true → s.toMake = m + 1 → s.phase = .idle →
      Change gen onLoop s .call { s with
        toMake := m, requested := s.requested + 1, returned := s.returned ++ [s.requested]
        phase := .sending s.requested }
  | callHeld {m} : onLoop = false → s.toMake = m + 1 → s.holding = none →
      Change gen onLoop s .call { s with
        toMake := m, requested := s.requested + 1, returned := s.returned ++ [s.requested]
        holding := some s.requested }
  | post {i} : s.holding = some i →
      Change gen onLoop s .post { s with holding := none, jobs := s.jobs ++ [i] }
  | runJob {i rest} : s.jobs = i :: rest → s.phase = .idle → s.accepts = true →
      Change gen onLoop s .runJob { s with
        jobs := rest, alive := s.alive ++ [i], appended := s.appended ++ [i], phase := .idle }
  | dropJob {i rest} : s.jobs = i :: rest → s.phase = .idle → s.accepts = false →
      Change gen onLoop s .runJob { s with jobs := rest, phase := .pulling }
  | release {i rest} : s.alive = i :: rest → s.phase = .idle →
      Change gen onLoop s .release { s with alive := rest, phase := .pulling }
  | pullEnd {b k} : s.phase = .pulling → s.requested ≤ k →
      Change gen onLoop s .pull { s with nextChunk := b, requested := k, phase := .idle }
  | pull : s.phase = .pulling → (request gen s).1.isSome →
      Change gen onLoop s .pull { s with
        requested := s.requested + 1, returned := s.returned ++ [s.requested]
        phase := .sending s.requested }
  | send {i} : s.phase = .sending i → s.accepts = true →
      Change gen onLoop s .send { s with
        alive := s.alive ++ [i], appended := s.appended ++ [i], phase := .idle }
  | drop {i} : s.phase = .sending i → s.accepts = false →
      Change gen onLoop s .send { s with phase := .pulling }
  | refuse {op a b c} : (!a && !b && c) = false →
      Change gen onLoop s op { s with isClosing := a, sendFin := b, connOpen := c }
  | destroy :
      Change gen onLoop s .destroy { s with
        gone := true, nextChunk := false, jobs := [], alive := [] }

theorem call_change (hen : s.Enabled onLoop .call) :
    ∃ t, s.step gen onLoop .call = .ok t ∧ Change gen onLoop s .call t := by
  obtain ⟨-, hpos, hholding, hidle⟩ := hen
  obtain ⟨m, hm⟩ := Nat.exists_eq_add_of_le' hpos
  have hpred : s.toMake - 1 = m := by omega
  simp only [step, hpred]
  rcases request_cases gen { s with toMake := m } with ⟨b, k, hk, heq⟩ | heq
  · rw [heq]
    exact ⟨_, rfl, .callEnd hm hk⟩
  · rw [heq]
    cases honLoop : onLoop with
    | true => exact ⟨_, rfl, .callInline rfl hm (hidle honLoop)⟩
    | false => exact ⟨_, rfl, .callHeld rfl hm hholding⟩

theorem pull_change (hen : s.Enabled onLoop .pull) :
    ∃ t, s.step gen onLoop .pull = .ok t ∧ Change gen onLoop s .pull t := by
  simp only [step]
  rcases request_cases gen s with ⟨b, k, hk, heq⟩ | heq
  · rw [heq]
    exact ⟨_, rfl, .pullEnd hen.2 hk⟩
  · rw [heq]
    exact ⟨_, rfl, .pull hen.2 (by rw [heq]; rfl)⟩

theorem runJob_change (hen : s.Enabled onLoop .runJob) :
    ∃ t, s.step gen onLoop .runJob = .ok t ∧ Change gen onLoop s .runJob t := by
  obtain ⟨-, hjobs, hidle, -⟩ := hen
  obtain ⟨i, rest, hcons⟩ := List.exists_cons_of_ne_nil hjobs
  simp only [step, hcons]
  refine ⟨_, rfl, ?_⟩
  cases haccepts : s.accepts with
  | true =>
    rw [sendImpl_accepted (s := { s with jobs := rest }) haccepts]
    exact .runJob hcons hidle haccepts
  | false =>
    rw [sendImpl_dropped (s := { s with jobs := rest }) haccepts]
    exact .dropJob hcons hidle haccepts

theorem send_change (hen : s.Enabled onLoop .send) :
    ∃ t, s.step gen onLoop .send = .ok t ∧ Change gen onLoop s .send t := by
  obtain ⟨i, hphase⟩ : ∃ i, s.phase = .sending i := by
    cases hp : s.phase with
    | sending i => exact ⟨i, rfl⟩
    | idle | pulling => exact absurd (by simp [hp, LoopPhase.chunk]) hen.2
  simp only [step, hphase]
  refine ⟨_, rfl, ?_⟩
  cases haccepts : s.accepts with
  | true =>
    rw [sendImpl_accepted haccepts]
    exact .send hphase haccepts
  | false =>
    rw [sendImpl_dropped haccepts]
    exact .drop hphase haccepts

/-- An enabled step is one of the changes, and does not fail. -/
theorem step_change (gen : Nat → Bytes) (hen : s.Enabled onLoop op) :
    ∃ t, s.step gen onLoop op = .ok t ∧ Change gen onLoop s op t := by
  cases op with
  | call => exact call_change hen
  | post =>
    obtain ⟨i, hi⟩ := Option.ne_none_iff_exists'.mp hen.2
    exact ⟨_, by simp only [step, hi], .post hi⟩
  | runJob => exact runJob_change hen
  | release =>
    obtain ⟨i, rest, hcons⟩ := List.exists_cons_of_ne_nil hen.2.1
    exact ⟨_, by simp only [step, hcons, List.tail_cons], .release hcons hen.2.2.1⟩
  | pull => exact pull_change hen
  | send => exact send_change hen
  | sendFin => exact ⟨_, rfl, .refuse (by simp)⟩
  | close => exact ⟨_, rfl, .refuse (by simp)⟩
  | loseConnection => exact ⟨_, rfl, .refuse (by simp)⟩
  | destroy => exact ⟨_, rfl, .destroy⟩

/-! ## Invariants -/

/-- A place for each chunk that may be alive; on the loop thread nothing waits to be appended. -/
structure Room (onLoop : Bool) (n : Nat) (s : ChunkOrder) : Prop where
  slots : s.toMake + s.holding.toList.length + s.jobs.length + s.phase.slots + s.alive.length ≤ n
  inline : onLoop = true → s.Settled

theorem Room.change (h : Room onLoop n s) (hc : Change gen onLoop s op t) : Room onLoop n t := by
  obtain ⟨hslots, hinline⟩ := h
  cases hc with
  | callEnd hm _ =>
    refine ⟨?_, hinline⟩
    simp only [hm] at hslots ⊢
    omega
  | callInline _ hm hidle =>
    refine ⟨?_, hinline⟩
    simp only [hm, hidle, LoopPhase.slots] at hslots ⊢
    omega
  | callHeld hoff hm hholding =>
    refine ⟨?_, fun hon => by simp [hoff] at hon⟩
    simp [hm, hholding] at hslots ⊢
    omega
  | post hi =>
    refine ⟨?_, fun hon => ?_⟩
    · simp [hi] at hslots ⊢
      omega
    · simp [(hinline hon).2] at hi
  | runJob hcons hidle _ =>
    refine ⟨?_, fun hon => ?_⟩
    · simp [hcons, hidle] at hslots ⊢
      omega
    · simp [(hinline hon).1] at hcons
  | dropJob hcons hidle _ =>
    refine ⟨?_, fun hon => ?_⟩
    · simp [hcons, hidle, LoopPhase.slots] at hslots ⊢
      omega
    · simp [(hinline hon).1] at hcons
  | release hcons hidle =>
    refine ⟨?_, hinline⟩
    simp [hcons, hidle, LoopPhase.slots] at hslots ⊢
    omega
  | pullEnd hphase _ =>
    refine ⟨?_, hinline⟩
    simp only [hphase, LoopPhase.slots] at hslots ⊢
    omega
  | pull hphase _ =>
    refine ⟨?_, hinline⟩
    simpa only [hphase, LoopPhase.slots] using hslots
  | send hphase _ =>
    refine ⟨?_, hinline⟩
    simp [hphase, LoopPhase.slots] at hslots ⊢
    omega
  | drop hphase _ =>
    refine ⟨?_, hinline⟩
    simpa only [hphase, LoopPhase.slots] using hslots
  | refuse _ => exact ⟨hslots, hinline⟩
  | destroy =>
    refine ⟨?_, fun hon => ⟨rfl, (hinline hon).2⟩⟩
    simp only [List.length_nil]
    omega

theorem room_initial (onLoop : Bool) (n : Nat) : Room onLoop n { toMake := n } :=
  ⟨by simp [LoopPhase.slots], fun _ => ⟨rfl, rfl⟩⟩

theorem room_inductive (gen : Nat → Bytes) (onLoop : Bool) (n : Nat) :
    (machine gen onLoop n).Inductive (Room onLoop n) where
  initial := by
    rintro s rfl
    exact room_initial onLoop n
  step := by
    intro s op h hen
    obtain ⟨t, ht, hc⟩ := step_change gen hen
    exact ⟨t, ht, h.change hc⟩

/-- The chunks returned and not yet appended, in the order in which they will be. -/
def queued (s : ChunkOrder) : List Nat := s.phase.chunk ++ s.jobs ++ s.holding.toList

/-- The chunks appended are the first of those returned, and the others are on their way in
order for as long as the stream takes data. -/
structure InOrder (s : ChunkOrder) : Prop where
  first : s.appended <+: s.returned
  rest : s.accepts = true → s.appended ++ s.queued = s.returned
  fresh : ∀ i ∈ s.returned, i < s.requested
  sorted : s.returned.Pairwise (· < ·)

/-- A chunk just returned is the last one. -/
theorem InOrder.return (h : InOrder s) :
    (∀ i ∈ s.returned ++ [s.requested], i < s.requested + 1) ∧
      (s.returned ++ [s.requested]).Pairwise (· < ·) := by
  refine ⟨fun i hi => ?_, List.pairwise_append.mpr ⟨h.sorted, by simp, fun i hi j hj => ?_⟩⟩
  · rcases List.mem_append.mp hi with hold | hnew
    · exact Nat.lt_succ_of_lt (h.fresh i hold)
    · simp only [List.mem_singleton] at hnew
      omega
  · rw [List.mem_singleton.mp hj]
    exact h.fresh i hi

theorem InOrder.change (h : InOrder s) (hinline : onLoop = true → s.Settled)
    (horderly : s.Orderly gen op) (hc : Change gen onLoop s op t) : InOrder t := by
  obtain ⟨hlt, hsorted⟩ := h.return
  have hlonger : s.appended <+: s.returned ++ [s.requested] :=
    h.first.trans (List.prefix_append _ _)
  cases hc with
  | callEnd _ hk =>
    exact ⟨h.first, h.rest, fun i hi => (h.fresh i hi).trans_le hk, h.sorted⟩
  | callInline hon _ hidle =>
    refine ⟨hlonger, fun ha => ?_, hlt, hsorted⟩
    have hrest := h.rest ha
    simp only [queued, hidle, (hinline hon).1, (hinline hon).2] at hrest ⊢
    simp [← hrest, LoopPhase.chunk]
  | callHeld _ _ hholding =>
    refine ⟨hlonger, fun ha => ?_, hlt, hsorted⟩
    have hrest := h.rest ha
    simp only [queued, hholding] at hrest ⊢
    simp [← hrest]
  | post hi =>
    refine ⟨h.first, fun ha => ?_, h.fresh, h.sorted⟩
    simpa [queued, hi] using h.rest ha
  | runJob hcons hidle ha =>
    have hrest := h.rest ha
    simp only [queued, hcons, hidle, LoopPhase.chunk, List.nil_append, List.cons_append] at hrest
    refine ⟨⟨_, by simpa using hrest⟩, fun _ => ?_, h.fresh, h.sorted⟩
    simpa [queued, hidle, LoopPhase.chunk] using hrest
  | dropJob _ _ ha =>
    exact ⟨h.first, fun ha' => absurd (ha'.symm.trans ha) (by simp), h.fresh, h.sorted⟩
  | release _ hidle =>
    refine ⟨h.first, fun ha => ?_, h.fresh, h.sorted⟩
    simpa [queued, hidle, LoopPhase.chunk] using h.rest ha
  | pullEnd hphase hk =>
    refine ⟨h.first, fun ha => ?_, fun i hi => (h.fresh i hi).trans_le hk, h.sorted⟩
    simpa [queued, hphase, LoopPhase.chunk] using h.rest ha
  | pull hphase hsome =>
    refine ⟨hlonger, fun ha => ?_, hlt, hsorted⟩
    obtain ⟨hjobs, hholding⟩ := horderly hsome
    have hrest := h.rest ha
    simp only [queued, hphase, hjobs, hholding] at hrest ⊢
    simp [← hrest, LoopPhase.chunk]
  | send hphase ha =>
    have hrest := h.rest ha
    simp only [queued, hphase, LoopPhase.chunk, List.cons_append, List.nil_append] at hrest
    refine ⟨⟨_, by simpa using hrest⟩, fun _ => ?_, h.fresh, h.sorted⟩
    simpa [queued, LoopPhase.chunk] using hrest
  | drop _ ha =>
    exact ⟨h.first, fun ha' => absurd (ha'.symm.trans ha) (by simp), h.fresh, h.sorted⟩
  | refuse hrefuse =>
    refine ⟨h.first, fun ha => ?_, h.fresh, h.sorted⟩
    simp only [accepts, Bool.and_assoc, Bool.and_eq_true] at ha
    simp [ha.2.1, ha.2.2.1, ha.2.2.2] at hrefuse
  | destroy => exact ⟨h.first, fun ha => by simp [accepts] at ha, h.fresh, h.sorted⟩

theorem inOrder_inductive (gen : Nat → Bytes) (onLoop : Bool) (n : Nat) :
    (orderly gen onLoop n).Inductive fun s => Room onLoop n s ∧ InOrder s where
  initial := by
    rintro s rfl
    exact ⟨room_initial onLoop n, ⟨by simp, fun _ => rfl, by simp, by simp⟩⟩
  step := by
    rintro s op ⟨hroom, h⟩ ⟨hen, horderly⟩
    obtain ⟨t, ht, hc⟩ := step_change gen hen
    exact ⟨t, ht, hroom.change hc, h.change hroom.inline horderly hc⟩

/-! ## When the order is kept -/

/-- With one chunk at a time, a chunk that asks for the next is the only one. -/
theorem Room.settled_of_one (h : Room onLoop 1 s) (hphase : s.phase = .pulling) : s.Settled := by
  have hslots := h.slots
  simp only [hphase, LoopPhase.slots] at hslots
  refine ⟨List.eq_nil_of_length_eq_zero (by omega), ?_⟩
  have hnone : s.holding.toList = [] := List.eq_nil_of_length_eq_zero (by omega)
  simpa using hnone

theorem Room.orderly (h : Room onLoop n s) (hn : onLoop = true ∨ n = 1)
    (hen : s.Enabled onLoop op) : s.Orderly gen op := by
  cases op with
  | pull =>
    intro _
    rcases hn with hon | rfl
    · exact h.inline hon
    · exact h.settled_of_one hen.2
  | _ => trivial

theorem orderly_reachable (hn : onLoop = true ∨ n = 1) (h : (machine gen onLoop n).Reachable s) :
    (orderly gen onLoop n).Reachable s := by
  induction h with
  | initial h0 => exact .initial h0
  | step hs hen hstep ih =>
    have hroom := (room_inductive gen onLoop n).reachable hs
    exact ih.step ⟨hen, hroom.orderly hn hen⟩ hstep

/-- A chunk that the loop thread gets while one of the calling thread is under way overtakes it. -/
theorem InOrder.overtaken (h : InOrder s) (ha : s.accepts = true) (hphase : s.phase = .pulling)
    (hnot : ¬s.Orderly gen .pull) :
    ∃ t u, s.step gen onLoop .pull = .ok t ∧ t.step gen onLoop .send = .ok u ∧
      ∃ i ∈ u.appended, ∃ j ∈ u.returned, j < i ∧ j ∉ u.appended := by
  obtain ⟨hsome, hunsettled⟩ : (request gen s).1.isSome ∧ ¬s.Settled := by
    simpa [Orderly] using hnot
  have heq : request gen s = (some s.requested,
      { s with requested := s.requested + 1, returned := s.returned ++ [s.requested] }) := by
    rcases request_cases gen s with ⟨b, k, -, hnone⟩ | heq
    · simp [hnone] at hsome
    · exact heq
  obtain ⟨j, hj⟩ : ∃ j, j ∈ s.queued := by
    apply List.exists_mem_of_ne_nil
    intro hnil
    apply hunsettled
    simpa [queued, hphase, LoopPhase.chunk, Settled] using hnil
  have hrest := h.rest ha
  have hreturned : j ∈ s.returned := hrest ▸ List.mem_append_right _ hj
  have hlt := h.fresh j hreturned
  -- the chunks on their way are not among those appended, for none is returned twice
  have hnodup : (s.appended ++ s.queued).Nodup := hrest ▸ h.sorted.imp Nat.ne_of_lt
  have hnew : j ∉ s.appended := fun hmem => List.disjoint_of_nodup_append hnodup hmem hj
  have hpull : s.step gen onLoop .pull = .ok { s with
      requested := s.requested + 1, returned := s.returned ++ [s.requested]
      phase := .sending s.requested } := by
    simp only [step, heq]
  refine ⟨_, _, hpull, congrArg Except.ok (sendImpl_accepted ha), s.requested, by simp, j, ?_,
    hlt, ?_⟩
  · exact List.mem_append_left _ hreturned
  · simp only [List.mem_append, List.mem_singleton, not_or]
    exact ⟨hnew, by omega⟩

/-- In a run in which the loop thread gets no chunk of its own while one of the calling thread is
under way, the chunks appended are the first of those returned, in order, and all of them but
those on their way as long as the stream takes data. Every run is such a run if `send_chunks` is
called on the loop thread or with one chunk at a time. The first step that breaks the condition,
while the stream takes data, puts a chunk before one that was returned earlier. -/
theorem chunks_in_order (gen : Nat → Bytes) (onLoop : Bool) (n : Nat) :
    (∀ s, (orderly gen onLoop n).Reachable s →
      s.appended <+: s.returned ∧ s.returned.Pairwise (· < ·) ∧
      (s.accepts = true → s.appended ++ s.queued = s.returned) ∧
      (s.accepts = true → s.Enabled onLoop .pull → ¬s.Orderly gen .pull →
        ∃ t u, s.step gen onLoop .pull = .ok t ∧ t.step gen onLoop .send = .ok u ∧
          ∃ i ∈ u.appended, ∃ j ∈ u.returned, j < i ∧ j ∉ u.appended)) ∧
    (onLoop = true ∨ n = 1 → ∀ s, (machine gen onLoop n).Reachable s →
      (orderly gen onLoop n).Reachable s) := by
  refine ⟨fun s h => ?_, fun hn s => orderly_reachable hn⟩
  obtain ⟨-, hinv⟩ := (inOrder_inductive gen onLoop n).reachable h
  exact ⟨hinv.first, hinv.sorted, hinv.rest, fun ha hen hnot => hinv.overtaken ha hen.2 hnot⟩

instance (s : ChunkOrder) : (op : Op) → Decidable (s.Orderly gen op)
  | .pull => inferInstanceAs (Decidable (_ → _))
  | .call => inferInstanceAs (Decidable True)
  | .post => inferInstanceAs (Decidable True)
  | .runJob => inferInstanceAs (Decidable True)
  | .release => inferInstanceAs (Decidable True)
  | .send => inferInstanceAs (Decidable True)
  | .sendFin => inferInstanceAs (Decidable True)
  | .close => inferInstanceAs (Decidable True)
  | .loseConnection => inferInstanceAs (Decidable True)
  | .destroy => inferInstanceAs (Decidable True)

instance (s : ChunkOrder) (op : Op) : Decidable ((machine gen onLoop n).enabled s op) :=
  inferInstanceAs (Decidable (s.Enabled onLoop op))

instance (s : ChunkOrder) (op : Op) : Decidable ((orderly gen onLoop n).enabled s op) :=
  inferInstanceAs (Decidable (s.Enabled onLoop op ∧ s.Orderly gen op))

/-- Off the loop thread with two at a time, both queued before the first is released. -/
theorem chunks_in_order_two :
    ∃ s, (orderly (fun _ => [0]) false 2).Reachable s ∧ s.appended = [0, 1, 2] ∧
      s.appended <+: s.returned := by
  have hrun : ((orderly (fun _ => [0]) false 2).run { toMake := 2 }
      [.call, .post, .call, .post, .runJob, .runJob, .release, .pull, .send]).map appended =
        some [0, 1, 2] := by decide
  obtain ⟨s, hs, hview⟩ := Option.map_eq_some_iff.mp hrun
  have h : (orderly (fun _ => [0]) false 2).Reachable s := Machine.Reachable.run (.initial rfl) hs
  exact ⟨s, h, hview, ((chunks_in_order (fun _ => [0]) false 2).1 s h).1⟩

/-- The calling thread has its second chunk when the first is released: the third is appended
before the second. -/
theorem third_chunk_overtakes_second :
    ∃ s, (machine (fun _ => [0]) false 2).Reachable s ∧ s.returned = [0, 1, 2] ∧
      s.appended = [0, 2, 1] := by
  have hrun : ((machine (fun _ => [0]) false 2).run { toMake := 2 }
      [.call, .post, .runJob, .call, .release, .pull, .send, .post, .runJob]).map
        (fun s => (s.returned, s.appended)) = some ([0, 1, 2], [0, 2, 1]) := by decide
  obtain ⟨s, hs, hview⟩ := Option.map_eq_some_iff.mp hrun
  have h : (machine (fun _ => [0]) false 2).Reachable s := Machine.Reachable.run (.initial rfl) hs
  exact ⟨s, h, Prod.mk.inj hview⟩

end ChunkOrder
end Libquic
