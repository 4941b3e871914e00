import Libquic.Endpoint.Stall
import Libquic.Lib.EraseDups

/-!
# Waiting for a stalled batch

Who waits for a stall to clear, and who is woken when it does. A flush that is skipped because
the batch is stalled makes its connection wait; `resume_stalled_send` wakes the waiters, and after
them the owner of the stalled packets.

Nothing is assumed here of the transport or of ngtcp2: a flush that does anything to a stall has
started one, whatever it was given.
-/
namespace Libquic

open Lib Lib.EraseDups

variable {Addr δ : Type}

/-! ## What a flush does to a stall -/

/-- What the batch and the connection that is flushing have to do with a stall. -/
structure StallView where
  stalled : Bool
  owner : Option Nat
  waiters : List Nat
  waiting : Bool

namespace Flush

def stallView (x : Flush Addr δ) : StallView where
  stalled := x.batch.stalled
  owner := x.batch.owner
  waiters := x.batch.waiters
  waiting := x.conn.waitingOnStall

/-- A part of a flush by connection `i` leaves stalls alone, or stalls the batch and is the end of
the flush. -/
inductive StallStep (i : Nat) (x y : Flush Addr δ) : Prop where
  | same (h : y.stallView = x.stallView)
  | stalls (hclear : x.batch.stalled = false)
      (h : y.stallView = { x.stallView with stalled := true, owner := some i })
      (hloop : y.loop = none)

section

variable {Q : DgramChannel δ} {i : Nat} {w : Write Addr} {f : FlushLoop} {x y z : Flush Addr δ}

theorem StallStep.of_same (h : StallStep i z y) (hz : z.stallView = x.stallView) :
    StallStep i x y := by
  rcases h with h | ⟨hclear, h, hloop⟩
  · exact .same (h.trans hz)
  · refine .stalls ?_ (by rw [h, hz]) hloop
    exact (congrArg StallView.stalled hz).symm.trans hclear

theorem stallStep_goOn (h : x.goOn f = .ok y) : StallStep i x y := by
  cases h
  exact .same rfl

theorem stallStep_abandon (h : x.abandon = .ok y) : StallStep i x y := by
  cases h
  exact .same rfl

theorem stallView_wrote {source : Channel} (h : x.wrote w source = .ok y) :
    y.stallView = x.stallView := by
  unfold Flush.wrote at h
  split at h
  · split at h
    · obtain ⟨s, -, hs⟩ := bind_ok h
      cases hs
      rfl
    · cases h
      rfl
  · cases h
    rfl

theorem stallView_push {b : SendBatch Addr} {pos : Nat} {data : Bytes} {mark : Mark Addr}
    (h : x.batch.push pos data mark = .ok b) :
    { x with batch := b }.stallView = x.stallView := by
  unfold SendBatch.push at h
  split_ifs at h
  cases h
  rfl

end

section

variable [Inhabited Addr] {Q : DgramChannel δ} {i : Nat} {w : Write Addr} {f : FlushLoop}
  {transport : Transport} {source : Channel} {waiting : Bool} {x y : Flush Addr δ}

theorem stallView_hand {b : SendBatch Addr} {result : IoResult}
    (h : x.batch.hand transport = .ok (result, b)) :
    (x.handOver b).stallView = x.stallView := by
  unfold SendBatch.hand at h
  split at h
  · cases h
  · cases h
    rfl

/-- Sending stalls the batch if it is blocked, and then the caller does not go on. -/
theorem stallStep_send {on : Bool} (h : x.send i transport = .ok (on, y)) :
    (on = true → y.stallView = x.stallView) ∧ StallStep i x { y with loop := none } := by
  by_cases hn : x.batch.nPackets = 0 ∨ maxBatch < x.batch.nPackets
  · rw [Flush.send, if_pos hn] at h
    cases h
  rw [Flush.send, if_neg hn] at h
  obtain ⟨⟨result, b⟩, hhand, hsent⟩ := bind_ok h
  have hsame := stallView_hand hhand
  cases result with
  | blocked =>
    obtain ⟨b', hstall, hret⟩ := bind_ok hsent
    cases hret
    unfold SendBatch.stallSend at hstall
    split_ifs at hstall with hclear
    cases hstall
    have hclear : b.stalled = false := by
      simp only [Bool.or_eq_true, not_or, Bool.not_eq_true] at hclear
      exact hclear.1
    refine ⟨by simp, .stalls ((congrArg StallView.stalled hsame).symm.trans hclear) ?_ rfl⟩
    rw [← hsame]
    rfl
  | _ =>
    cases hsent
    exact ⟨fun _ => hsame, .same hsame⟩

theorem stallStep_finish (h : x.finish i transport = .ok y) : StallStep i x y := by
  unfold Flush.finish at h
  split_ifs at h
  · cases h
    exact .same rfl
  · obtain ⟨⟨on, z⟩, hsend, hret⟩ := bind_ok h
    cases hret
    exact (stallStep_send hsend).2

theorem stallStep_proceed (h : x.proceed Q i source waiting transport f = .ok y) :
    StallStep i x y := by
  unfold Flush.proceed at h
  split_ifs at h
  · exact stallStep_finish h
  · obtain ⟨channels, -, hon⟩ := bind_ok h
    exact stallStep_goOn hon

theorem stallStep_packetWritten {data : Bytes} {ecn : UInt8}
    (h : x.packetWritten Q i source waiting w data ecn f = .ok y) : StallStep i x y := by
  obtain ⟨x₁, hwrote, h⟩ := bind_ok h
  obtain ⟨b, hpush, h⟩ := bind_ok h
  have hsame : { x₁ with batch := b }.stallView = x.stallView :=
    (stallView_push hpush).trans (stallView_wrote hwrote)
  dsimp only at h
  split_ifs at h
  · obtain ⟨⟨on, x₂⟩, hsend, h⟩ := bind_ok h
    obtain ⟨hon, hstep⟩ := stallStep_send hsend
    cases on with
    | false =>
      cases h
      exact hstep.of_same hsame
    | true =>
      simp only [Bool.not_true, Bool.false_eq_true, if_false] at h
      split_ifs at h
      · cases h
      · exact (stallStep_proceed h).of_same ((hon rfl).trans hsame)
  · exact (stallStep_proceed h).of_same hsame

theorem stallStep_conclude {nwrite : Nwrite}
    (h : x.conclude Q i source waiting nwrite w f = .ok y) : StallStep i x y := by
  cases nwrite with
  | packet data ecn => exact stallStep_packetWritten h
  | zero =>
    cases source <;> exact stallStep_goOn h
  | error e =>
    unfold Flush.conclude at h
    dsimp only at h
    split_ifs at h
    · exact stallStep_abandon h
    · exact (stallStep_abandon h).of_same rfl
    · exact stallStep_goOn h
    · exact stallStep_goOn h
    · obtain ⟨z, hwrote, hon⟩ := bind_ok h
      exact (stallStep_goOn hon).of_same (stallView_wrote hwrote)
    · exact stallStep_goOn h

theorem stallStep_datagramTurn {more : Bool}
    (h : x.datagramTurn Q i waiting more w f = .ok y) : StallStep i x y := by
  unfold Flush.datagramTurn at h
  split at h
  · cases h
  · dsimp only at h
    split_ifs at h
    all_goals first
      | exact (stallStep_conclude h).of_same rfl
      | exact (stallStep_goOn h).of_same rfl

theorem stallStep_streamTurn {id : Int} (h : x.streamTurn Q i id w f = .ok y) :
    StallStep i x y := by
  unfold Flush.streamTurn at h
  split at h
  · cases h
  · obtain ⟨o, -, h⟩ := bind_ok h
    cases o with
    | none => exact stallStep_goOn h
    | some o => exact (stallStep_conclude h).of_same rfl

/-- One turn of the loop. -/
theorem stallStep_iterate (h : x.iterate Q i w = .ok y) : StallStep i x y := by
  unfold Flush.iterate at h
  split at h
  · cases h
    exact .same rfl
  · split at h
    · exact stallStep_datagramTurn h
    · exact stallStep_finish h
    · exact stallStep_goOn h
    · exact stallStep_streamTurn h
    · exact (stallStep_conclude h).of_same rfl

end

end Flush

/-! ## Waiting and forgetting -/

namespace SendEndpoint

variable {i : Nat} {x : SendEndpoint Addr δ}

theorem waitingOnStall_update {c : FlushConn Addr δ}
    (hc : c.waitingOnStall = (x.conns i).waitingOnStall) (j : Nat) :
    (Function.update x.conns i c j).waitingOnStall = (x.conns j).waitingOnStall := by
  by_cases hj : j = i
  · subst hj
    simp [hc]
  · simp [hj]

/-- A flush that finds the batch stalled can only become a waiter. -/
theorem flushPackets_stalled (hst : x.batch.stalled = true) (Q : DgramChannel δ) (i mid n : Nat) :
    ∃ y waiters, x.flushPackets Q i mid n = .ok y ∧ y.building = x.building ∧
      y.batch = { x.batch with waiters := waiters } := by
  unfold flushPackets
  dsimp only
  split_ifs
  · exact ⟨x, _, rfl, rfl, rfl⟩
  · unfold waitForSendStall
    split_ifs
    · exact ⟨x, _, rfl, rfl, rfl⟩
    · exact ⟨_, _, rfl, rfl, rfl⟩

/-- A halted connection is neither owner nor waiter. -/
theorem forgetSendStall_spec (hw : ∀ j, j ∈ x.batch.waiters ↔ (x.conns j).waitingOnStall = true)
    (i : Nat) :
    (x.forgetSendStall i).building = x.building ∧
      (x.forgetSendStall i).batch = { x.batch with
        owner := x.batch.owner.filter fun j => j ≠ i
        waiters := x.batch.waiters.erase i } ∧
      ∀ j, ((x.forgetSendStall i).conns j).waitingOnStall =
        ((x.conns j).waitingOnStall && j ≠ i) := by
  have howner : (if x.batch.owner = some i then { x with batch.owner := none } else x) =
      { x with batch.owner := x.batch.owner.filter fun j => j ≠ i } := by
    obtain ⟨conns, ⟨arrays, n, stalled, owner, waiters⟩, building, handed⟩ := x
    cases owner with
    | none => rfl
    | some j => by_cases hji : j = i <;> simp [hji, Option.filter]
  unfold forgetSendStall
  rw [howner]
  dsimp only
  split_ifs with hwait
  · refine ⟨rfl, rfl, fun j => ?_⟩
    by_cases hj : j = i <;> simp [modify, hj]
  · have hmem : i ∉ x.batch.waiters := fun hmem => hwait ((hw i).mp hmem)
    refine ⟨rfl, by rw [List.erase_of_not_mem hmem], fun j => ?_⟩
    by_cases hj : j = i
    · simpa [hj] using hwait
    · simp [hj]

/-- When the socket is writable, sending blocks once more or the stall clears. -/
theorem resumeStalledSend_cases [Inhabited Addr] (hst : x.batch.stalled = true)
    (transport : Transport) :
    ∃ y, x.resumeStalledSend transport = .ok y ∧ y.building = x.building ∧
      (y.batch.stalled = true ∧ y.batch.owner = x.batch.owner ∧
          y.batch.waiters = x.batch.waiters ∧ y.conns = x.conns ∨
        y.batch.stalled = false ∧ y.batch.owner = none ∧ y.batch.waiters = [] ∧
          y.batch.nPackets = 0 ∧ ∀ i, (y.conns i).waitingOnStall =
            ((x.conns i).waitingOnStall && i ∉ x.batch.waiters)) := by
  have hclear (i : Nat) : (x.clearStall.conns i).waitingOnStall =
      ((x.conns i).waitingOnStall && i ∉ x.batch.waiters) := by
    by_cases hi : i ∈ x.batch.waiters <;> simp [clearStall, hi]
  rw [resumeStalledSend, if_neg (by simp [hst])]
  cases howner : x.batch.owner with
  | none => exact ⟨_, rfl, rfl, .inr ⟨rfl, rfl, rfl, rfl, hclear⟩⟩
  | some i =>
    dsimp only
    by_cases hdead : (x.conns i).dead = true
    · rw [if_pos hdead]
      exact ⟨_, rfl, rfl, .inr ⟨rfl, rfl, rfl, rfl, hclear⟩⟩
    · rw [if_neg hdead]
      obtain ⟨r, hr⟩ := Option.isSome_iff_exists.mp
        (sendPackets_isSome transport x.batch.arrays x.batch.nPackets)
      rw [SendBatch.hand, hr, ok_bind]
      refine ⟨_, rfl, ?_⟩
      by_cases hblocked : r.result = .blocked
      · rw [if_pos hblocked]
        exact ⟨rfl, .inl ⟨hst, howner, rfl, rfl⟩⟩
      · rw [if_neg hblocked]
        exact ⟨rfl, .inr ⟨rfl, rfl, rfl, rfl, hclear⟩⟩

end SendEndpoint

/-! ## The run of an endpoint -/

/-- An endpoint, with its connections' events and the socket's callbacks as far as stalls have to
do with them. `skipped` and `stalledBy` are only history. -/
structure StallRun (Addr δ : Type) where
  endpoint : SendEndpoint Addr δ
  /-- The connections that have no `packet_io_trigger` any more. -/
  halted : Nat → Bool := fun _ => false
  /-- How many calls of `resume_stalled_send` the socket owes, by `when_writeable`. -/
  callbacks : Nat := 0
  /-- The connections whose `packet_io_trigger` was activated when a stall cleared. -/
  woken : List Nat := []
  /-- The connections whose flushes were skipped since the batch stalled. -/
  skipped : List Nat := []
  /-- The connection whose send stalled the batch. -/
  stalledBy : Option Nat := none

namespace StallRun

inductive Op (Addr δ : Type) where
  | endpoint (op : SendEndpoint.Op Addr δ)
  | die (i : Nat)

def packetIoReady (x : StallRun Addr δ) (i : Nat) : StallRun Addr δ :=
  if x.halted i then x else { x with woken := x.woken ++ [i] }

/-- What an operation of the endpoint, which left it as `y`, does to the rest. -/
def after (x : StallRun Addr δ) (y : SendEndpoint Addr δ) :
    SendEndpoint.Op Addr δ → StallRun Addr δ
  | .flushPackets i _ _ =>
    if x.endpoint.batch.stalled && !(x.endpoint.conns i).dead then
      { x with endpoint := y, skipped := x.skipped ++ [i] }
    else { x with endpoint := y }
  | .iterate _ =>
    if !x.endpoint.batch.stalled && y.batch.stalled then
      { x with endpoint := y, callbacks := x.callbacks + 1, stalledBy := y.batch.owner }
    else { x with endpoint := y }
  | .resumeStalledSend _ =>
    -- Blocked once more, it leaves another callback behind.
    if y.batch.stalled then { x with endpoint := y }
    else
      let b := x.endpoint.batch
      (b.waiters ++ b.owner.toList).foldl packetIoReady { x with
        endpoint := y, callbacks := x.callbacks - 1, skipped := [], stalledBy := none }
  | .halt i => { x with endpoint := y, halted := fun j => j = i || x.halted j }
  | .setRoute .. | .change .. => { x with endpoint := y }

def step [Inhabited Addr] (Q : DgramChannel δ) (x : StallRun Addr δ) :
    Op Addr δ → Except Fault (StallRun Addr δ)
  | .endpoint op => do return x.after (← x.endpoint.step Q op) op
  | .die i => .ok { x with endpoint := x.endpoint.modify i ({ · with dead := true }) }

/-- Flushes run from events that a halted connection no longer has, a flush runs to its end, and
`resume_stalled_send` runs only as a callback. -/
def Enabled (x : StallRun Addr δ) : Op Addr δ → Prop
  | .endpoint (.flushPackets i _ _) => x.endpoint.building = none ∧ x.halted i = false
  | .endpoint (.iterate _) => x.endpoint.building ≠ none
  | .endpoint (.resumeStalledSend _) => x.endpoint.building = none ∧ 0 < x.callbacks
  | .endpoint (.halt _) => x.endpoint.building = none
  | .endpoint (.setRoute ..) | .endpoint (.change ..) | .die _ => True

def machine [Inhabited Addr] (Q : DgramChannel δ) :
    Machine (StallRun Addr δ) (Op Addr δ) Fault where
  initial x := x = { endpoint := x.endpoint } ∧ x.endpoint.building = none ∧
    x.endpoint.batch.stalled = false ∧ x.endpoint.batch.owner = none ∧
    x.endpoint.batch.waiters = [] ∧ ∀ i, (x.endpoint.conns i).waitingOnStall = false
  enabled := Enabled
  step := step Q

instance (x : StallRun Addr δ) : (op : Op Addr δ) → Decidable (x.Enabled op)
  | .endpoint (.flushPackets ..) | .endpoint (.resumeStalledSend _) =>
    inferInstanceAs (Decidable (_ ∧ _))
  | .endpoint (.iterate _) => inferInstanceAs (Decidable (x.endpoint.building ≠ none))
  | .endpoint (.halt _) => inferInstanceAs (Decidable (x.endpoint.building = none))
  | .endpoint (.setRoute ..) | .endpoint (.change ..) | .die _ => inferInstanceAs (Decidable True)

instance [Inhabited Addr] (Q : DgramChannel δ) (x : StallRun Addr δ) (op : Op Addr δ) :
    Decidable ((machine Q).enabled x op) :=
  inferInstanceAs (Decidable (x.Enabled op))

/-- The connections whose flushes were skipped, in the order of their first, without the one that
stalled the batch and without those that have halted. -/
def stillWaiting (x : StallRun Addr δ) : List Nat :=
  x.skipped.eraseDups.filter fun i => !x.halted i && x.stalledBy != some i

/-- The connection that stalled the batch, unless it has halted. -/
def stillOwner (x : StallRun Addr δ) : Option Nat := x.stalledBy.filter fun i => !x.halted i

/-- Who is to be woken when the stall clears: the owner goes to the back of the line. -/
def toWake (x : StallRun Addr δ) : List Nat := x.stillWaiting ++ x.stillOwner.toList

/-- Nothing has been written into the stalled batch or sent from it, and no one is woken. -/
structure Untouched (x y : StallRun Addr δ) : Prop where
  stalled : y.endpoint.batch.stalled = true
  building : y.endpoint.building = none
  arrays : y.endpoint.batch.arrays = x.endpoint.batch.arrays
  nPackets : y.endpoint.batch.nPackets = x.endpoint.batch.nPackets
  woken : y.woken = x.woken

/-- The batch is free again, and whoever is to be woken has been, once. -/
structure Cleared (x y : StallRun Addr δ) : Prop where
  stalled : y.endpoint.batch.stalled = false
  nPackets : y.endpoint.batch.nPackets = 0
  once : x.toWake.Nodup
  woken : y.woken = x.woken ++ x.toWake

/-! ## The invariant -/

structure Inv (x : StallRun Addr δ) : Prop where
  waiting : ∀ i, i ∈ x.endpoint.batch.waiters ↔ (x.endpoint.conns i).waitingOnStall = true
  waiters : x.endpoint.batch.waiters = x.stillWaiting
  owner : x.endpoint.batch.owner = x.stillOwner
  clear : x.endpoint.batch.stalled = false →
    x.skipped = [] ∧ x.stalledBy = none ∧ x.callbacks = 0
  stalled : x.endpoint.batch.stalled = true →
    x.endpoint.building = none ∧ x.stalledBy ≠ none ∧ x.callbacks = 1
  building : ∀ i f, x.endpoint.building = some (i, f) → x.halted i = false

section

variable {i : Nat} {x : StallRun Addr δ}

theorem woken_foldl (l : List Nat) (x : StallRun Addr δ) :
    l.foldl packetIoReady x = { x with woken := x.woken ++ l.filter fun i => !x.halted i } := by
  induction l generalizing x with
  | nil => simp
  | cons i l ih =>
    rw [List.foldl_cons, ih, packetIoReady]
    cases hi : x.halted i <;> simp [hi]

@[simp] theorem endpoint_after (y : SendEndpoint Addr δ) (op : SendEndpoint.Op Addr δ) :
    (x.after y op).endpoint = y := by
  cases op <;> simp only [after, woken_foldl] <;> split_ifs <;> rfl

theorem mem_stillWaiting :
    i ∈ x.stillWaiting ↔ i ∈ x.skipped ∧ x.halted i = false ∧ x.stalledBy ≠ some i := by
  simp [stillWaiting]

theorem nodup_stillWaiting (x : StallRun Addr δ) : x.stillWaiting.Nodup :=
  (nodup_eraseDups x.skipped).filter _

theorem stillOwner_eq_some : x.stillOwner = some i ↔ x.stalledBy = some i ∧ x.halted i = false := by
  simp only [stillOwner, Option.filter_eq_some_iff, Bool.not_eq_true']

theorem mem_toWake :
    i ∈ x.toWake ↔ x.halted i = false ∧ (i ∈ x.skipped ∨ x.stalledBy = some i) := by
  rw [toWake, List.mem_append, mem_stillWaiting, Option.mem_toList, stillOwner_eq_some]
  tauto

theorem nodup_toWake (x : StallRun Addr δ) : x.toWake.Nodup := by
  have hone : x.stillOwner.toList.Nodup := by cases x.stillOwner <;> simp
  refine List.nodup_append.mpr ⟨nodup_stillWaiting x, hone, ?_⟩
  rintro i hi j hj rfl
  exact (mem_stillWaiting.mp hi).2.2 (stillOwner_eq_some.mp (Option.mem_toList.mp hj)).1

theorem Inv.not_stalled (h : x.Inv) (hb : x.endpoint.building ≠ none) :
    x.endpoint.batch.stalled = false := by
  by_contra hst
  exact hb (h.stalled (by simpa using hst)).1

theorem Inv.modify (h : x.Inv) {f : FlushConn Addr δ → FlushConn Addr δ}
    (hf : (f (x.endpoint.conns i)).waitingOnStall = (x.endpoint.conns i).waitingOnStall) :
    Inv { x with endpoint := x.endpoint.modify i f } := by
  refine ⟨fun j => ?_, h.waiters, h.owner, h.clear, h.stalled, h.building⟩
  rw [SendEndpoint.modify, SendEndpoint.waitingOnStall_update hf]
  exact h.waiting j

theorem stillWaiting_skip (hi : x.halted i = false) (y : SendEndpoint Addr δ) :
    { x with endpoint := y, skipped := x.skipped ++ [i] }.stillWaiting =
      if x.stalledBy = some i ∨ i ∈ x.stillWaiting then x.stillWaiting
      else x.stillWaiting ++ [i] := by
  simp only [stillWaiting]
  rw [eraseDups_concat]
  by_cases hskip : i ∈ x.skipped <;> by_cases hby : x.stalledBy = some i <;>
    simp [hskip, hby, hi]

theorem Inv.waitForSendStall (h : x.Inv) (hst : x.endpoint.batch.stalled = true)
    (hi : x.halted i = false) :
    Inv { x with endpoint := x.endpoint.waitForSendStall i, skipped := x.skipped ++ [i] } := by
  have howner : x.endpoint.batch.owner = some i ↔ x.stalledBy = some i := by
    rw [h.owner, stillOwner_eq_some, hi, eq_self, and_true]
  have hwait : (x.endpoint.conns i).waitingOnStall = true ↔ i ∈ x.stillWaiting := by
    rw [← h.waiting, h.waiters]
  have hne : x.endpoint.batch.stalled ≠ false := by simp [hst]
  have hskip := stillWaiting_skip hi (x.endpoint.waitForSendStall i)
  -- The code's test is that of `stillWaiting_skip`: is this a new name among the skipped?
  unfold SendEndpoint.waitForSendStall at hskip ⊢
  simp only [Bool.or_eq_true, decide_eq_true_eq, howner, hwait] at hskip ⊢
  split_ifs at hskip ⊢ with hcond
  · exact ⟨h.waiting, h.waiters.trans hskip.symm, h.owner, fun hc => absurd hc hne, h.stalled,
      h.building⟩
  · refine ⟨fun j => ?_, ?_, h.owner, fun hc => absurd hc hne, h.stalled, h.building⟩
    · by_cases hj : j = i <;> simp [SendEndpoint.modify, hj, h.waiting]
    · rw [hskip, ← h.waiters]

/-- Whether its flush is skipped or begins, a connection that has not halted may flush. -/
theorem Inv.flushPackets (h : x.Inv) {Q : DgramChannel δ} {mid n : Nat} (hi : x.halted i = false)
    {y : SendEndpoint Addr δ} (hok : x.endpoint.flushPackets Q i mid n = .ok y) :
    (x.after y (.flushPackets i mid n)).Inv := by
  unfold SendEndpoint.flushPackets at hok
  dsimp only at hok
  unfold StallRun.after
  split_ifs at hok with hdead hst hn
  · cases hok
    simp only [hdead, Bool.not_true, Bool.and_false, Bool.false_eq_true, if_false]
    exact h
  · cases hok
    simp only [hdead, hst, Bool.not_false, Bool.and_true, if_true]
    exact h.waitForSendStall hst hi
  · cases hok
    simp only [hst, Bool.false_and, Bool.false_eq_true, if_false]
    refine ⟨h.waiting, h.waiters, h.owner, h.clear, fun hst' => absurd hst' hst, ?_⟩
    intro j f hj
    cases hj
    exact hi

/-- Whoever is still flushing after a turn was flushing before it. -/
theorem Inv.afterFlush_building (h : x.Inv) {f : FlushLoop} (hb : x.endpoint.building = some (i, f))
    {z : Flush Addr δ} {j : Nat} {g : FlushLoop}
    (hj : (x.endpoint.afterFlush i z).building = some (j, g)) : x.halted j = false := by
  obtain ⟨f', -, hpair⟩ := Option.map_eq_some_iff.mp hj
  cases hpair
  exact h.building i f hb

/-- A turn that leaves stalls alone. -/
theorem Inv.afterFlush_same (h : x.Inv) {f : FlushLoop} (hb : x.endpoint.building = some (i, f))
    {z : Flush Addr δ} (hsame : z.stallView = (x.endpoint.flush i (some f)).stallView) :
    Inv { x with endpoint := x.endpoint.afterFlush i z } := by
  have hclear := h.not_stalled (by simp [hb])
  have hst : z.batch.stalled = false := (congrArg StallView.stalled hsame).trans hclear
  have hwaiters : z.batch.waiters = x.endpoint.batch.waiters := congrArg StallView.waiters hsame
  refine ⟨fun j => ?_, hwaiters.trans h.waiters, ?_, fun _ => h.clear hclear, ?_, ?_⟩
  · rw [SendEndpoint.afterFlush, SendEndpoint.waitingOnStall_update
      (congrArg StallView.waiting hsame), ← h.waiting]
    exact iff_of_eq (congrArg (j ∈ ·) hwaiters)
  · exact (congrArg StallView.owner hsame).trans h.owner
  · intro hst'
    exact absurd (hst.symm.trans hst') (by simp)
  · intro j g
    exact h.afterFlush_building hb

/-- A turn that stalls the batch: there is one callback, and no one waits yet. -/
theorem Inv.afterFlush_stalls (h : x.Inv) {f : FlushLoop}
    (hb : x.endpoint.building = some (i, f)) {z : Flush Addr δ}
    (hstall : z.stallView =
      { (x.endpoint.flush i (some f)).stallView with stalled := true, owner := some i })
    (hloop : z.loop = none) :
    Inv { x with
      endpoint := x.endpoint.afterFlush i z, callbacks := x.callbacks + 1
      stalledBy := some i } := by
  obtain ⟨hskip, -, hcalls⟩ := h.clear (h.not_stalled (by simp [hb]))
  have hst : z.batch.stalled = true := congrArg StallView.stalled hstall
  have howner : z.batch.owner = some i := congrArg StallView.owner hstall
  have hwaiters : z.batch.waiters = x.endpoint.batch.waiters := congrArg StallView.waiters hstall
  refine ⟨fun j => ?_, ?_, ?_, ?_, fun _ => ⟨?_, by simp, by simp [hcalls]⟩, ?_⟩
  · rw [SendEndpoint.afterFlush, SendEndpoint.waitingOnStall_update
      (congrArg StallView.waiting hstall), ← h.waiting]
    exact iff_of_eq (congrArg (j ∈ ·) hwaiters)
  · refine (hwaiters.trans h.waiters).trans ?_
    simp [stillWaiting, hskip]
  · refine howner.trans (Eq.symm ?_)
    rw [stillOwner_eq_some]
    exact ⟨rfl, h.building i f hb⟩
  · intro hst'
    exact absurd (hst.symm.trans hst') (by simp)
  · exact Option.map_eq_none_iff.mpr hloop
  · intro j g
    exact h.afterFlush_building hb

/-- A turn of a flush stalls the batch on its connection, or keeps out of it. -/
theorem Inv.iterate [Inhabited Addr] (h : x.Inv) {Q : DgramChannel δ} {w : Write Addr}
    {y : SendEndpoint Addr δ} (hb : x.endpoint.building ≠ none)
    (hok : x.endpoint.step Q (.iterate w) = .ok y) : (x.after y (.iterate w)).Inv := by
  obtain ⟨⟨i, f⟩, hsome⟩ := Option.ne_none_iff_exists'.mp hb
  simp only [SendEndpoint.step, hsome] at hok
  obtain ⟨z, hturn, hret⟩ := bind_ok hok
  cases hret
  have hclear := h.not_stalled hb
  unfold StallRun.after
  dsimp only
  rcases Flush.stallStep_iterate hturn with hsame | ⟨-, hstall, hloop⟩
  · have hst : (x.endpoint.afterFlush i z).batch.stalled = false :=
      (congrArg StallView.stalled hsame).trans hclear
    rw [if_neg (by simp [hst])]
    exact h.afterFlush_same hsome hsame
  · have hst : (x.endpoint.afterFlush i z).batch.stalled = true :=
      congrArg StallView.stalled hstall
    have howner : (x.endpoint.afterFlush i z).batch.owner = some i :=
      congrArg StallView.owner hstall
    rw [if_pos (by simp [hst, hclear]), howner]
    exact h.afterFlush_stalls hsome hstall hloop

theorem Inv.halt (h : x.Inv) (i : Nat) (hb : x.endpoint.building = none) :
    (x.after (x.endpoint.forgetSendStall i) (.halt i)).Inv := by
  obtain ⟨hbuilding, hbatch, hconns⟩ := x.endpoint.forgetSendStall_spec h.waiting i
  have hnodup : x.endpoint.batch.waiters.Nodup := h.waiters ▸ nodup_stillWaiting x
  simp only [StallRun.after]
  refine ⟨fun j => ?_, ?_, ?_, ?_, ?_, ?_⟩
  · simp only [hconns, hbatch]
    rw [hnodup.mem_erase_iff, h.waiting]
    simp [and_comm]
  · simp only [hbatch]
    rw [hnodup.erase_eq_filter, h.waiters]
    simp only [stillWaiting, List.filter_filter]
    refine List.filter_congr fun j _ => ?_
    by_cases hj : j = i <;> simp [hj]
  · simp only [hbatch, h.owner, stillOwner, Option.filter_filter]
    congr 1
    funext j
    by_cases hj : j = i <;> simp [hj]
  · intro hst
    exact h.clear (by simpa [hbatch] using hst)
  · intro hst
    have hold := h.stalled (by simpa [hbatch] using hst)
    exact ⟨hbuilding.trans hold.1, hold.2⟩
  · intro j f hj
    exact absurd ((hbuilding.trans hb).symm.trans hj) (by simp)

/-- The stall goes on, or it is over and everyone has been woken. -/
theorem Inv.resumeStalledSend [Inhabited Addr] (h : x.Inv) (hst : x.endpoint.batch.stalled = true)
    (transport : Transport) :
    ∃ y, x.endpoint.resumeStalledSend transport = .ok y ∧
      (x.after y (.resumeStalledSend transport)).Inv ∧
      (y.batch.stalled = true ∧ (x.after y (.resumeStalledSend transport)).woken = x.woken ∨
        x.Cleared (x.after y (.resumeStalledSend transport))) := by
  obtain ⟨hb, -, hcalls⟩ := h.stalled hst
  obtain ⟨y, hok, hbuilding, hcases⟩ := x.endpoint.resumeStalledSend_cases hst transport
  have hidle {i : Nat} {f : FlushLoop} (hi : y.building = some (i, f)) : x.halted i = false :=
    absurd ((hbuilding.trans hb).symm.trans hi) (by simp)
  refine ⟨y, hok, ?_⟩
  simp only [StallRun.after, woken_foldl]
  rcases hcases with ⟨hst', howner, hwaiters, hconns⟩ | ⟨hst', howner, hwaiters, hn, hconns⟩
  · rw [if_pos hst']
    refine ⟨⟨fun i => ?_, hwaiters.trans h.waiters, howner.trans h.owner, ?_,
      fun _ => ⟨hbuilding.trans hb, (h.stalled hst).2⟩, fun _ _ => hidle⟩, .inl ⟨hst', rfl⟩⟩
    · simp only [hwaiters, hconns]
      exact h.waiting i
    · intro hc
      exact absurd (hst'.symm.trans hc) (by simp)
  · rw [if_neg (by simp [hst'])]
    refine ⟨⟨fun i => ?_, hwaiters, howner, fun _ => ⟨rfl, rfl, by simp [hcalls]⟩, ?_,
      fun _ _ => hidle⟩, .inr ⟨hst', hn, nodup_toWake x, ?_⟩⟩
    · have hmem := (h.waiting i).mpr
      simpa [hwaiters, hconns] using hmem
    · intro hs
      exact absurd (hst'.symm.trans hs) (by simp)
    · -- No one in the line has halted, so that every call of `packet_io_ready` has an effect.
      rw [h.waiters, h.owner, ← toWake, List.filter_eq_self.mpr]
      intro i hi
      simpa using (mem_toWake.mp hi).1

end

section

variable [Inhabited Addr] {Q : DgramChannel δ} {x y : StallRun Addr δ} {op : Op Addr δ}

theorem Inv.step (h : x.Inv) (hen : x.Enabled op) (hok : x.step Q op = .ok y) : y.Inv := by
  cases op with
  | die i =>
    cases hok
    exact h.modify rfl
  | endpoint op =>
    obtain ⟨z, hstep, hret⟩ := bind_ok hok
    cases hret
    cases op with
    | flushPackets i mid n => exact h.flushPackets hen.2 hstep
    | iterate w => exact h.iterate hen hstep
    | resumeStalledSend transport =>
      have hst : x.endpoint.batch.stalled = true := by
        by_contra hclear
        exact hen.2.ne' (h.clear (by simpa using hclear)).2.2
      obtain ⟨z', hresume, hz, -⟩ := h.resumeStalledSend hst transport
      obtain rfl : z' = z := Except.ok.inj (hresume.symm.trans hstep)
      exact hz
    | setRoute i path nat64Path =>
      cases hstep
      exact h.modify rfl
    | change i streams dgrams =>
      cases hstep
      exact h.modify rfl
    | halt i =>
      cases hstep
      exact h.halt i hen

theorem Inv.reachable (h : (machine Q).Reachable x) : x.Inv := by
  refine h.keep ?_ fun _ _ _ hx hen hok => hx.step hen hok
  rintro x ⟨hx, hb, hst, howner, hwaiters, hconns⟩
  rw [hx]
  refine ⟨fun i => ?_, hwaiters, howner, fun _ => ⟨rfl, rfl, rfl⟩, ?_, ?_⟩
  · simp [hwaiters, hconns]
  · intro hst'
    exact absurd (hst.symm.trans hst') (by simp)
  · intro i f hi
    exact absurd (hb.symm.trans hi) (by simp)

/-- During a stall, all that can change the batch is the socket becoming writable. -/
theorem Inv.untouched (h : x.Inv) (hst : x.endpoint.batch.stalled = true) (hen : x.Enabled op)
    (hop : ∀ transport, op ≠ .endpoint (.resumeStalledSend transport)) :
    ∃ y, x.step Q op = .ok y ∧ x.Untouched y := by
  have hb := (h.stalled hst).1
  cases op with
  | die i => exact ⟨_, rfl, hst, hb, rfl, rfl, rfl⟩
  | endpoint op =>
    cases op with
    | flushPackets i mid n =>
      obtain ⟨z, waiters, hflush, hbuilding, hbatch⟩ :=
        x.endpoint.flushPackets_stalled hst Q i mid n
      refine ⟨x.after z (.flushPackets i mid n), ?_, ?_, ?_, ?_, ?_, ?_⟩
      · rw [StallRun.step, SendEndpoint.step, hflush]
        rfl
      · simp [hbatch, hst]
      · simp [hbuilding, hb]
      · simp [hbatch]
      · simp [hbatch]
      · simp only [StallRun.after]
        split_ifs <;> rfl
    | iterate w => exact absurd hb hen
    | resumeStalledSend transport => exact absurd rfl (hop transport)
    | setRoute i path nat64Path => exact ⟨_, rfl, hst, hb, rfl, rfl, rfl⟩
    | change i streams dgrams => exact ⟨_, rfl, hst, hb, rfl, rfl, rfl⟩
    | halt i =>
      obtain ⟨hbuilding, hbatch, -⟩ := x.endpoint.forgetSendStall_spec h.waiting i
      refine ⟨_, rfl, ?_, hbuilding.trans hb, ?_, ?_, rfl⟩ <;> simp [after, hbatch, hst]

/-- Flushes, blocked sends and writability callbacks may come in any order, and connections may
die and halt between them. The waiters are the connections with `waiting_on_stall`, without
duplicates; the owner is not one of them, and a halted connection is neither. During a stall
nothing is written into the batch, and the socket owes a callback, which either blocks again or
ends the stall: then the batch is empty, the connections whose flushes were skipped are woken in
that order, and the owner after them, except those that have halted. -/
theorem stall_wakes_waiters (Q : DgramChannel δ) (h : (machine Q).Reachable x) :
    x.endpoint.batch.waiters.Nodup ∧
    (∀ i, i ∈ x.endpoint.batch.waiters ↔ (x.endpoint.conns i).waitingOnStall = true) ∧
    (∀ i, x.endpoint.batch.owner = some i → i ∉ x.endpoint.batch.waiters) ∧
    (∀ i, x.halted i = true → x.endpoint.batch.owner ≠ some i ∧ i ∉ x.endpoint.batch.waiters) ∧
    (x.endpoint.batch.stalled = true →
      x.stalledBy ≠ none ∧
      (∀ op, x.Enabled op → (∀ transport, op ≠ .endpoint (.resumeStalledSend transport)) →
        ∃ y, x.step Q op = .ok y ∧ x.Untouched y) ∧
      ∀ transport, x.Enabled (.endpoint (.resumeStalledSend transport)) ∧
        ∃ y, x.step Q (.endpoint (.resumeStalledSend transport)) = .ok y ∧
          (y.endpoint.batch.stalled = true ∧ y.woken = x.woken ∨ x.Cleared y)) := by
  have hinv := Inv.reachable h
  refine ⟨hinv.waiters ▸ nodup_stillWaiting x, hinv.waiting, ?_, ?_, fun hst => ⟨?_, ?_, ?_⟩⟩
  · intro i hi hmem
    rw [hinv.owner, stillOwner_eq_some] at hi
    rw [hinv.waiters, mem_stillWaiting] at hmem
    exact hmem.2.2 hi.1
  · intro i hi
    rw [hinv.owner, hinv.waiters, mem_stillWaiting, ne_eq, stillOwner_eq_some, hi]
    simp
  · exact (hinv.stalled hst).2.1
  · exact fun op hen hop => hinv.untouched hst hen hop
  · intro transport
    obtain ⟨hb, -, hcalls⟩ := hinv.stalled hst
    obtain ⟨z, hresume, -, hz⟩ := hinv.resumeStalledSend hst transport
    refine ⟨⟨hb, by simp [hcalls]⟩, x.after z (.resumeStalledSend transport), ?_, ?_⟩
    · rw [StallRun.step, SendEndpoint.step, hresume]
      rfl
    · rwa [endpoint_after]

end

/-- A socket that takes nothing. -/
def blockedSocket : Transport := .socket fun _ n => (.blocked, ⟨0, n.succ_pos⟩)

/-- An endpoint whose batch has room for one packet. -/
def smallest : StallRun Nat Unit where
  endpoint :=
    { conns _ := { path := ⟨0, 1⟩ }
      batch := { arrays := ⟨[0], [0], [default]⟩ } }

/-- Connection 0 stalls the batch. Connections 1 and 2 are skipped, and 2 halts. -/
theorem stall_wakes_waiters_two : ∃ x : StallRun Nat Unit,
    (machine SendEndpoint.noDgrams).Reachable x ∧ x.endpoint.batch.stalled = true ∧
    x.toWake = [1, 0] ∧
    ∃ y, x.step SendEndpoint.noDgrams
        (.endpoint (.resumeStalledSend SendEndpoint.openSocket)) = .ok y ∧
      (y.endpoint.batch.stalled = true ∧ y.woken = x.woken ∨ x.Cleared y) := by
  have hrun : ((machine SendEndpoint.noDgrams).run smallest [.endpoint (.flushPackets 0 0 1),
      .endpoint (.iterate { SendEndpoint.byteOn ⟨0, 1⟩ with transport := blockedSocket }),
      .endpoint (.flushPackets 1 0 1), .endpoint (.flushPackets 2 0 1),
      .endpoint (.flushPackets 1 0 1), .endpoint (.halt 2)]).map
      (fun x => (x.endpoint.batch.stalled, x.toWake)) = some (true, [1, 0]) := by decide
  obtain ⟨x, hx, heq⟩ := Option.map_eq_some_iff.mp hrun
  obtain ⟨hst, hwake⟩ := Prod.mk.inj heq
  have hreach := (Machine.Reachable.initial (M := machine SendEndpoint.noDgrams)
    ⟨rfl, rfl, rfl, rfl, rfl, fun _ => rfl⟩).run hx
  obtain ⟨-, -, -, -, hstalled⟩ := stall_wakes_waiters SendEndpoint.noDgrams hreach
  exact ⟨x, hreach, hst, hwake, ((hstalled hst).2.2 SendEndpoint.openSocket).2⟩

end StallRun

end Libquic
