import Libquic.Lib.Machine
import Libquic.Stream.Basic

/-!
# Sending in chunks

`send_chunks` on the loop thread. A generator is asked for a chunk as often as chunks may be in
flight at once, and after that each chunk's destructor asks for the next, so that the sender
lives on the releases of its own chunks. `send_impl` drops a chunk when the stream cannot take
it; then the chunk is destroyed at once, and its destructor asks for the next one.

The generator is the sequence of what it returns, an empty chunk standing for the end. It is
given the stream as a constant reference and does not act on it. A watermark callback may: it runs
while a chunk is being appended, so that the stream may have stopped taking data when `make` asks
for the next chunk.
-/
namespace Libquic

open Lib

structure ChunkSender where
  /-- `next_chunk` has not been reset. -/
  nextChunk : Bool := true
  /-- How often the generator was called, and `done`. -/
  requested : Nat := 0
  doneCalls : Nat := 0
  /-- The chunks held by the send buffer, by the call that returned them. -/
  alive : List Nat := []
  isClosing : Bool := false
  sendFin : Bool := false
  /-- The connection is there, and neither closing nor draining. -/
  connOpen : Bool := true
  /-- The stream has been destroyed. -/
  gone : Bool := false
  begun : Bool := false
  /-- The chunks ever put into the send buffer, and whether a chunk was requested, or `done`
  called, while the stream could not take data. History variables: nothing reads them. -/
  appended : List Nat := []
  late : Bool := false
  deriving DecidableEq, Repr

/-- What an application may do that keeps the stream from taking data. What it sends itself is
nothing to the sender. -/
inductive StreamCall where
  | sendFin | close | loseConnection
  deriving DecidableEq, Repr

namespace ChunkSender

/-- Whether `send_impl` takes a chunk. `_sent_fin` is set only after `_send_fin` is. -/
def accepts (s : ChunkSender) : Bool := !s.gone && !s.isClosing && !s.sendFin && s.connOpen

def call (s : ChunkSender) : StreamCall → ChunkSender
  | .sendFin => { s with sendFin := true }
  | .close => { s with isClosing := true, sendFin := true }
  | .loseConnection => { s with connOpen := false }

section Model
variable (gen : Nat → Bytes) (onAppend : Nat → List StreamCall)

/-- `append_buffer`, with what the watermark callback does if there is one to be called. -/
def append (s : ChunkSender) (i : Nat) : ChunkSender :=
  (onAppend i).foldl call { s with alive := s.alive ++ [i], appended := s.appended ++ [i] }

/-- `queue_next_chunk`, up to `depth` destructors deep. -/
def queueNextChunk : Nat → ChunkSender → Except Fault ChunkSender
  | 0, _ => .error .divergence
  | depth + 1, s =>
    if !s.nextChunk then .ok s
    else if s.gone || s.isClosing then .ok { s with nextChunk := false }
    else
      let i := s.requested
      let s := { s with requested := i + 1, late := s.late || !s.accepts }
      if (gen i).isEmpty then .ok { s with nextChunk := false, doneCalls := s.doneCalls + 1 }
      else if s.accepts then .ok (s.append onAppend i)
      -- dropped, and destroyed right here
      else queueNextChunk depth s

/-- The loop of `chunk_sender::make`. -/
def queueChunks (depth : Nat) : Nat → ChunkSender → Except Fault ChunkSender
  | 0, s => .ok s
  | n + 1, s => do
    let s ← queueNextChunk gen onAppend depth s
    queueChunks depth n s

def make (depth simultaneous : Nat) (s : ChunkSender) : Except Fault ChunkSender :=
  queueChunks gen onAppend depth simultaneous { s with begun := true }

/-- The oldest chunk has been acknowledged in full. -/
def release (depth : Nat) (s : ChunkSender) : Except Fault ChunkSender :=
  queueNextChunk gen onAppend depth { s with alive := s.alive.tail }

/-- The send buffer goes with the stream, chunk by chunk. -/
def destroy (depth : Nat) (s : ChunkSender) : Except Fault ChunkSender :=
  s.alive.foldlM (fun s _ => release gen onAppend depth s) { s with gone := true }

inductive Op where
  | make
  | release
  | call (call : StreamCall)
  | destroy
  deriving DecidableEq, Repr

def Enabled (s : ChunkSender) : Op → Prop
  | .make => s.begun = false ∧ s.gone = false
  | .release => s.alive ≠ [] ∧ s.gone = false
  | _ => s.gone = false

instance (s : ChunkSender) : (op : Op) → Decidable (s.Enabled op)
  | .make => inferInstanceAs (Decidable (_ ∧ _))
  | .release => inferInstanceAs (Decidable (_ ∧ _))
  | .call _ => inferInstanceAs (Decidable (_ = _))
  | .destroy => inferInstanceAs (Decidable (_ = _))

def step (depth simultaneous : Nat) (s : ChunkSender) : Op → Except Fault ChunkSender
  | .make => s.make gen onAppend depth simultaneous
  | .release => s.release gen onAppend depth
  | .call call => .ok (s.call call)
  | .destroy => s.destroy gen onAppend depth

/-- The sender has finished, the stream is closing, or it takes data. -/
def mayAsk (s : ChunkSender) : Bool := !s.nextChunk || s.isClosing || s.accepts

/-- No turn of the loop in `make` asks for a chunk that the stream cannot take. -/
def mayQueue (depth : Nat) : Nat → ChunkSender → Bool
  | 0, _ => true
  | n + 1, s => s.mayAsk && match queueNextChunk gen onAppend depth s with
    | .ok t => mayQueue depth n t
    | .error _ => true

/-- The sender is not asked to go on while the stream, without closing, cannot take data. -/
def Orderly (depth simultaneous : Nat) (s : ChunkSender) : Op → Prop
  | .make => mayQueue gen onAppend depth simultaneous { s with begun := true } = true
  | .release => s.mayAsk = true
  | _ => True

/-- Any run of the sender. -/
def machine (depth simultaneous : Nat) : Machine ChunkSender Op Fault where
  initial s := s = {}
  enabled := Enabled
  step := step gen onAppend depth simultaneous

/-- The runs in which every step is orderly. -/
def orderly (depth simultaneous : Nat) : Machine ChunkSender Op Fault where
  initial s := s = {}
  enabled s op := s.Enabled op ∧ s.Orderly gen onAppend depth simultaneous op
  step := step gen onAppend depth simultaneous

end Model

/-! ## Asking for the next chunk -/

variable {gen : Nat → Bytes} {onAppend : Nat → List StreamCall} {depth simultaneous : Nat}
variable {s t : ChunkSender}

/-- The application changes nothing but the flags of the stream. -/
theorem foldl_call (calls : List StreamCall) (s : ChunkSender) :
    ∃ isClosing sendFin connOpen, calls.foldl call s =
      { s with isClosing := isClosing, sendFin := sendFin, connOpen := connOpen } := by
  induction calls generalizing s with
  | nil => exact ⟨_, _, _, rfl⟩
  | cons call calls ih =>
    obtain ⟨isClosing, sendFin, connOpen, heq⟩ := ih (s.call call)
    refine ⟨isClosing, sendFin, connOpen, heq.trans ?_⟩
    cases call <;> rfl

theorem append_eq (onAppend : Nat → List StreamCall) (s : ChunkSender) (i : Nat) :
    ∃ isClosing sendFin connOpen, s.append onAppend i =
      { s with
        alive := s.alive ++ [i], appended := s.appended ++ [i]
        isClosing := isClosing, sendFin := sendFin, connOpen := connOpen } :=
  foldl_call _ _

/-- What holds of an orderly run. Every chunk requested was put into the buffer, but for the
empty one that ended the generator. -/
structure Inv (gen : Nat → Bytes) (s : ChunkSender) : Prop where
  timely : s.late = false
  once : s.doneCalls ≤ 1
  open_ : s.nextChunk = true → s.doneCalls = 0
  all : s.doneCalls = 0 → s.appended = List.range s.requested
  ended : s.doneCalls = 1 → ∃ k, s.requested = k + 1 ∧ gen k = [] ∧ s.appended = List.range k

theorem Inv.call (h : Inv gen s) (call : StreamCall) : Inv gen (s.call call) := by
  cases call <;> exact { h with }

/-- What a request leaves alone. -/
structure Kept (s t : ChunkSender) : Prop where
  gone : t.gone = s.gone
  begun : t.begun = s.begun
  late : s.late = true → t.late = true

/-- A request that reaches the generator. -/
theorem queueNextChunk_open (hnext : s.nextChunk = true) (hgone : s.gone = false)
    (hclosing : s.isClosing = false) :
    queueNextChunk gen onAppend (depth + 1) s =
      if (gen s.requested).isEmpty then
        .ok { s with
          requested := s.requested + 1, late := s.late || !s.accepts
          nextChunk := false, doneCalls := s.doneCalls + 1 }
      else if s.accepts then
        .ok ({ s with requested := s.requested + 1, late := s.late || !s.accepts }.append onAppend
          s.requested)
      else queueNextChunk gen onAppend depth
        { s with requested := s.requested + 1, late := s.late || !s.accepts } := by
  rw [queueNextChunk, if_neg (by simp [hnext]), if_neg (by simp [hgone, hclosing])]
  rfl

/-- A request that does not. -/
theorem queueNextChunk_stopped
    (h : ¬(s.nextChunk = true ∧ s.gone = false ∧ s.isClosing = false)) :
    queueNextChunk gen onAppend (depth + 1) s = .ok { s with nextChunk := false } := by
  unfold queueNextChunk
  by_cases hnext : s.nextChunk = true
  · have hend : (s.gone || s.isClosing) = true := by
      by_contra hopen
      exact h ⟨hnext, by simpa using hopen⟩
    rw [if_neg (by simp [hnext]), if_pos hend]
  · have hended : s.nextChunk = false := by simpa using hnext
    rw [if_pos (by simp [hended]), ← hended]

theorem queueNextChunk_kept (h : queueNextChunk gen onAppend depth s = .ok t) : Kept s t := by
  induction depth generalizing s with
  | zero => cases h
  | succ depth ih =>
    by_cases hask : s.nextChunk = true ∧ s.gone = false ∧ s.isClosing = false
    · rw [queueNextChunk_open hask.1 hask.2.1 hask.2.2] at h
      split_ifs at h
      · cases h
        exact ⟨rfl, rfl, fun hlate => by simp [hlate]⟩
      · obtain ⟨isClosing, sendFin, connOpen, heq⟩ := append_eq onAppend
          { s with requested := s.requested + 1, late := s.late || !s.accepts } s.requested
        rw [heq] at h
        cases h
        exact ⟨rfl, rfl, fun hlate => by simp [hlate]⟩
      · obtain ⟨hgone, hbegun, hlate⟩ := ih h
        exact ⟨hgone, hbegun, fun hl => hlate (by simp [hl])⟩
    · rw [queueNextChunk_stopped hask] at h
      cases h
      exact ⟨rfl, rfl, id⟩

theorem queueNextChunk_spec (onAppend : Nat → List StreamCall) (depth : Nat) (h : Inv gen s)
    (hmay : s.gone = true ∨ s.mayAsk = true) :
    ∃ t, queueNextChunk gen onAppend (depth + 1) s = .ok t ∧ Inv gen t ∧
      t.alive.length ≤ s.alive.length + 1 ∧ (s.gone = true → t.alive = s.alive) := by
  by_cases hask : s.nextChunk = true ∧ s.gone = false ∧ s.isClosing = false
  · obtain ⟨hnext, hgone, hclosing⟩ := hask
    have haccepts : s.accepts = true := by simpa [mayAsk, hnext, hgone, hclosing] using hmay
    have hnone := h.open_ hnext
    have hall := h.all hnone
    have hkept : ¬s.gone = true := by simp [hgone]
    rw [queueNextChunk_open hnext hgone hclosing]
    by_cases hempty : gen s.requested = []
    · refine ⟨{ s with
          requested := s.requested + 1, nextChunk := false, doneCalls := s.doneCalls + 1 },
        by simp [hempty, haccepts], ?_, by simp, fun hg => absurd hg hkept⟩
      exact ⟨h.timely, by simp [hnone], nofun, nofun, fun _ => ⟨s.requested, rfl, hempty, hall⟩⟩
    · obtain ⟨isClosing, sendFin, connOpen, heq⟩ := append_eq onAppend
        { s with requested := s.requested + 1, late := s.late || !s.accepts } s.requested
      rw [if_neg (by simp [hempty]), if_pos haccepts]
      refine ⟨_, congrArg Except.ok heq, ?_, by simp, fun hg => absurd hg hkept⟩
      refine ⟨by simp [h.timely, haccepts], h.once, h.open_, fun _ => ?_, fun hone => ?_⟩
      · simp [hall, List.range_succ]
      · simp [hnone] at hone
  · rw [queueNextChunk_stopped hask]
    exact ⟨_, rfl, { h with open_ := nofun }, by simp, fun _ => rfl⟩

/-! ## The operations -/

theorem queueChunks_spec (n : Nat) (h : Inv gen s)
    (hmay : mayQueue gen onAppend (depth + 1) n s = true) :
    ∃ t, queueChunks gen onAppend (depth + 1) n s = .ok t ∧ Inv gen t ∧
      t.alive.length ≤ s.alive.length + n ∧ t.begun = s.begun := by
  induction n generalizing s with
  | zero => exact ⟨s, rfl, h, le_rfl, rfl⟩
  | succ n ih =>
    obtain ⟨hask, hrest⟩ := Bool.and_eq_true_iff.mp hmay
    obtain ⟨t, ht, hinv, halive, -⟩ := queueNextChunk_spec onAppend depth h (.inr hask)
    rw [ht] at hrest
    obtain ⟨u, hu, hinv', halive', hbegun⟩ := ih hinv hrest
    refine ⟨u, ?_, hinv', by omega, hbegun.trans (queueNextChunk_kept ht).begun⟩
    rw [queueChunks, ht, ok_bind, hu]

/-- The chunks of a destroyed stream ask in vain. -/
theorem releaseAll_spec (onAppend : Nat → List StreamCall) (depth : Nat) (l : List Nat)
    (h : Inv gen s) (hgone : s.gone = true) :
    ∃ t, l.foldlM (fun s _ => release gen onAppend (depth + 1) s) s = .ok t ∧ Inv gen t ∧
      t.alive.length ≤ s.alive.length ∧ t.begun = s.begun := by
  induction l generalizing s with
  | nil => exact ⟨s, rfl, h, le_rfl, rfl⟩
  | cons i l ih =>
    have hinv : Inv gen { s with alive := s.alive.tail } := { h with }
    obtain ⟨t, ht, hinv', -, halive⟩ := queueNextChunk_spec onAppend depth hinv (.inl hgone)
    have hkept := queueNextChunk_kept ht
    obtain ⟨u, hu, hinv'', hle, hbegun⟩ := ih hinv' (hkept.gone.trans hgone)
    refine ⟨u, ?_, hinv'', ?_, hbegun.trans hkept.begun⟩
    · rw [List.foldlM_cons, show release gen onAppend (depth + 1) s = .ok t from ht]
      exact hu
    · have htail : t.alive = s.alive.tail := halive hgone
      rw [htail, List.length_tail] at hle
      omega

/-- An orderly run, with the bound on the chunks in flight. -/
structure Bounded (gen : Nat → Bytes) (simultaneous : Nat) (s : ChunkSender) : Prop where
  inv : Inv gen s
  alive : s.alive.length ≤ simultaneous
  fresh : s.begun = false → s.alive = []

theorem orderly_inductive (gen : Nat → Bytes) (onAppend : Nat → List StreamCall)
    (depth simultaneous : Nat) :
    (orderly gen onAppend (depth + 1) simultaneous).Inductive (Bounded gen simultaneous) where
  initial := by
    rintro s rfl
    exact ⟨⟨rfl, by simp, fun _ => rfl, fun _ => rfl, by simp⟩, by simp, fun _ => rfl⟩
  step := by
    rintro s op ⟨hinv, halive, hfresh⟩ ⟨hen, horderly⟩
    cases op with
    | make =>
      have hbegin : Inv gen { s with begun := true } := { hinv with }
      obtain ⟨t, ht, hinv', hle, hbegun⟩ := queueChunks_spec simultaneous hbegin horderly
      have hnone : s.alive = [] := hfresh hen.1
      refine ⟨t, ht, hinv', by simpa [hnone] using hle, fun hb => ?_⟩
      rw [hbegun] at hb
      cases hb
    | release =>
      have htail : Inv gen { s with alive := s.alive.tail } := { hinv with }
      obtain ⟨t, ht, hinv', hle, -⟩ := queueNextChunk_spec onAppend depth htail (.inr horderly)
      have hpos := List.length_pos_of_ne_nil hen.1
      simp only [List.length_tail] at hle
      refine ⟨t, ht, hinv', by omega, fun hb => absurd (hfresh ?_) hen.1⟩
      exact (queueNextChunk_kept ht).begun.symm.trans hb
    | call call =>
      refine ⟨_, rfl, hinv.call call, ?_, ?_⟩
      · cases call <;> exact halive
      · cases call <;> exact hfresh
    | destroy =>
      have hgone : Inv gen { s with gone := true } := { hinv with }
      obtain ⟨t, ht, hinv', hle, hbegun⟩ := releaseAll_spec onAppend depth s.alive hgone rfl
      refine ⟨t, ht, hinv', hle.trans halive, fun hb => ?_⟩
      have hnone : s.alive = [] := hfresh (hbegun.symm.trans hb)
      simpa [hnone] using hle

/-! ## Late requests -/

theorem queueChunks_keeps_late {n : Nat} (hlate : s.late = true)
    (h : queueChunks gen onAppend depth n s = .ok t) : t.late = true := by
  induction n generalizing s with
  | zero =>
    cases h
    exact hlate
  | succ n ih =>
    obtain ⟨u, hu, hrest⟩ := bind_ok h
    exact ih ((queueNextChunk_kept hu).late hlate) hrest

/-- A request that the stream cannot serve is a late one, if it returns at all. -/
theorem queueNextChunk_late (hgone : s.gone = false) (hmay : s.mayAsk = false)
    (h : queueNextChunk gen onAppend depth s = .ok t) : t.late = true := by
  obtain ⟨⟨hnext, hclosing⟩, haccepts⟩ :
      (s.nextChunk = true ∧ s.isClosing = false) ∧ s.accepts = false := by
    simpa [mayAsk] using hmay
  cases depth with
  | zero => cases h
  | succ depth =>
    have hdrop : ¬s.accepts = true := by simp [haccepts]
    rw [queueNextChunk_open hnext hgone hclosing, if_neg hdrop] at h
    split_ifs at h
    · cases h
      simp [haccepts]
    · exact (queueNextChunk_kept h).late (by simp [haccepts])

/-- With a generator that does not end, such a request does not return. -/
theorem queueNextChunk_endless (hgen : ∀ i, gen i ≠ []) (hnext : s.nextChunk = true)
    (hgone : s.gone = false) (hclosing : s.isClosing = false) (haccepts : s.accepts = false) :
    queueNextChunk gen onAppend depth s = .error .divergence := by
  induction depth generalizing s with
  | zero => rfl
  | succ depth ih =>
    rw [queueNextChunk_open hnext hgone hclosing, if_neg (by simp [hgen]),
      if_neg (by simp [haccepts])]
    exact ih hnext hgone hclosing haccepts

/-- If nothing is late after the loop of `make`, then every turn of it could ask. -/
theorem mayQueue_of_timely {n : Nat} (hgone : s.gone = false)
    (h : queueChunks gen onAppend depth n s = .ok t) (htimely : t.late = false) :
    mayQueue gen onAppend depth n s = true := by
  induction n generalizing s with
  | zero => rfl
  | succ n ih =>
    obtain ⟨u, hu, hrest⟩ := bind_ok h
    have hmay : s.mayAsk = true := by
      by_contra hnot
      have hlate := queueNextChunk_late hgone (by simpa using hnot) hu
      simp [queueChunks_keeps_late hlate hrest] at htimely
    simp only [mayQueue, hmay, hu, Bool.true_and]
    exact ih ((queueNextChunk_kept hu).gone.trans hgone) hrest

theorem orderly_of_timely {op : Op} (hen : s.Enabled op)
    (hstep : s.step gen onAppend depth simultaneous op = .ok t) (htimely : t.late = false) :
    s.Orderly gen onAppend depth simultaneous op := by
  cases op with
  | make => exact mayQueue_of_timely hen.2 hstep htimely
  | release =>
    cases hmay : s.mayAsk with
    | true => exact hmay
    | false =>
      have hlate := queueNextChunk_late (s := { s with alive := s.alive.tail }) hen.2 hmay hstep
      simp [hlate] at htimely
  | call | destroy => trivial

/-- In a run in which the sender is never asked to go on while the stream, without closing, cannot
take data, at most `simultaneous` chunks are alive, `done` is called at most once and only after
an empty chunk with every chunk before it in the send buffer, no chunk is requested and `done` is
not called while the stream cannot take data, and no step fails. The first step that breaks the
condition makes a late request, unless it does not return. -/
theorem chunks_in_time (depth : Nat)
    (h : (orderly gen onAppend (depth + 1) simultaneous).Reachable s) :
    s.alive.length ≤ simultaneous ∧
    (s.doneCalls ≤ 1 ∧ (s.doneCalls = 1 →
      ∃ k, s.requested = k + 1 ∧ gen k = [] ∧ s.appended = List.range k)) ∧
    s.late = false ∧
    (∀ op, s.Enabled op → s.Orderly gen onAppend (depth + 1) simultaneous op →
      ∃ t, s.step gen onAppend (depth + 1) simultaneous op = .ok t) ∧
    ∀ op t, s.Enabled op → s.step gen onAppend (depth + 1) simultaneous op = .ok t →
      (t.late = false ↔ s.Orderly gen onAppend (depth + 1) simultaneous op) := by
  have hind := orderly_inductive gen onAppend depth simultaneous
  have hinv := hind.reachable h
  refine ⟨hinv.alive, ⟨hinv.inv.once, hinv.inv.ended⟩, hinv.inv.timely,
    fun op hen ho => hind.progress h ⟨hen, ho⟩, fun op t hen hstep => ?_⟩
  constructor
  · exact orderly_of_timely hen hstep
  · intro ho
    have ht : (orderly gen onAppend (depth + 1) simultaneous).Reachable t := h.step ⟨hen, ho⟩ hstep
    exact (hind.reachable ht).inv.timely

instance (s : ChunkSender) : (op : Op) →
    Decidable (s.Orderly gen onAppend depth simultaneous op)
  | .make => inferInstanceAs (Decidable (_ = true))
  | .release => inferInstanceAs (Decidable (_ = true))
  | .call _ => inferInstanceAs (Decidable True)
  | .destroy => inferInstanceAs (Decidable True)

instance (s : ChunkSender) (op : Op) :
    Decidable ((machine gen onAppend depth simultaneous).enabled s op) :=
  inferInstanceAs (Decidable (s.Enabled op))

instance (s : ChunkSender) (op : Op) :
    Decidable ((orderly gen onAppend depth simultaneous).enabled s op) :=
  inferInstanceAs (Decidable (s.Enabled op ∧ s.Orderly gen onAppend depth simultaneous op))

/-- A generator of three chunks. -/
def threeChunks (i : Nat) : Bytes := if i < 3 then [0] else []

/-- Two in flight, all sent and acknowledged, then the stream is closed. -/
theorem chunks_in_time_three :
    ∃ s, (orderly threeChunks (fun _ => []) 5 2).Reachable s ∧ s.doneCalls = 1 ∧
      s.appended = [0, 1, 2] ∧ s.late = false := by
  have hrun : ((orderly threeChunks (fun _ => []) 5 2).run {}
      [.make, .release, .release, .release, .call .close]).map
      (fun s => (s.doneCalls, s.appended)) = some (1, [0, 1, 2]) := by decide
  obtain ⟨s, hs, hview⟩ := Option.map_eq_some_iff.mp hrun
  have h : (orderly threeChunks (fun _ => []) 5 2).Reachable s :=
    Machine.Reachable.run (.initial rfl) hs
  obtain ⟨hdone, happended⟩ := Prod.mk.inj hview
  exact ⟨s, h, hdone, happended, (chunks_in_time 4 h).2.2.1⟩

/-- After `send_fin` the release of the first chunk requests and drops the other two, and then
calls `done`. With a generator that does not end it does not return, however deep the destructors
may nest. -/
theorem send_fin_drains_generator :
    (∃ s, (machine threeChunks (fun _ => []) 5 1).Reachable s ∧ s.sendFin = true ∧
      s.requested = 4 ∧ s.late = true ∧ s.doneCalls = 1 ∧ s.appended = [0]) ∧
    ∃ s, (machine (fun _ => [0]) (fun _ => []) 5 1).Reachable s ∧ s.Enabled .release ∧
      ∀ depth, s.step (fun _ => [0]) (fun _ => []) depth 1 .release = .error .divergence := by
  refine ⟨?_, ?_⟩
  · have hrun : ((machine threeChunks (fun _ => []) 5 1).run {}
        [.make, .call .sendFin, .release]).map
        (fun s => (s.sendFin, s.requested, s.late, s.doneCalls, s.appended)) =
          some (true, 4, true, 1, [0]) := by decide
    obtain ⟨s, hs, hview⟩ := Option.map_eq_some_iff.mp hrun
    have h : (machine threeChunks (fun _ => []) 5 1).Reachable s :=
      Machine.Reachable.run (.initial rfl) hs
    simp only [Prod.mk.injEq] at hview
    exact ⟨s, h, hview⟩
  · have hrun : (machine (fun _ => [0]) (fun _ => []) 5 1).run {} [.make, .call .sendFin] =
        some { requested := 1, alive := [0], sendFin := true, begun := true, appended := [0] } := by
      decide
    refine ⟨_, Machine.Reachable.run (.initial rfl) hrun, by decide, fun depth => ?_⟩
    exact queueNextChunk_endless (by simp) rfl rfl rfl rfl

end ChunkSender
end Libquic
