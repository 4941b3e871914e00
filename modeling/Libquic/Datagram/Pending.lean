import Libquic.Datagram.QueueSpec

/-!
# Bytes that wait in the datagram queue

Runs of a `Datagrams` channel, in and out of early data. `pending_bytes` is kept up to date with
the sizes of pieces and, where datagrams are dropped or sent again, with `unsent_size`, which has
16 bits. `measured` keeps the true sizes of the datagrams that it was asked for.
-/
namespace Libquic

open Lib DatagramQueue

/-- An operation on the queue. -/
inductive QueueOp (β : Type) where
  | send (data : List β)
  | fetch (maxPiece : Nat) (preferSmall : Bool)
  | confirm
  | lookahead (n : Int)
  | earlyBegin
  | earlyRetry
  | earlyEnd (accepted : Bool)
  deriving DecidableEq, Repr

/-- A channel, and what has happened to it. -/
structure QueueRun (β : Type) where
  datagrams : Datagrams β
  /-- A piece has been fetched and can still be confirmed. -/
  fetched : Bool := false
  /-- How much was unsent of each datagram that was dropped or sent again. -/
  measured : List Nat := []
  deriving DecidableEq, Repr

namespace QueueRun

variable {β : Type} {s t : QueueRun β}

def queue (s : QueueRun β) : DatagramQueue β := s.datagrams.sendBuffer

/-- The run goes on with another queue; no piece is to be confirmed, and `unsent_size` has been
asked for these sizes. -/
def withQueue (q : DatagramQueue β) (sizes : List Nat) (s : QueueRun β) : QueueRun β where
  datagrams := { s.datagrams with sendBuffer := q }
  fetched := false
  measured := s.measured ++ sizes

/-- A piece is confirmed after `fetch` has returned it, with nothing but sends and changes of the
lookahead in between. Early data begins with an empty queue. -/
def Enabled (s : QueueRun β) : QueueOp β → Prop
  | .confirm => s.fetched = true
  | .earlyBegin => s.queue.buf = []
  | _ => True

def step (s : QueueRun β) : QueueOp β → Except Fault (QueueRun β)
  | .send data => .ok { s with datagrams := s.datagrams.sendImpl data }
  | .fetch maxPiece preferSmall => do
    let (prepared, datagrams) ← s.datagrams.pending maxPiece preferSmall
    .ok { datagrams := datagrams
          fetched := prepared.isSome
          measured := s.measured ++ (s.queue.dropped maxPiece).map Storage.unsent }
  | .confirm => do
    let datagrams ← s.datagrams.confirmDatagramSent
    .ok { s with datagrams := datagrams, fetched := false }
  | .lookahead n => .ok { s with datagrams := s.datagrams.setSplitDatagramLookahead n }
  | .earlyBegin => do
    let q ← s.queue.earlyDataBegin
    .ok (s.withQueue q [])
  | .earlyRetry => do
    let q ← s.queue.earlyDataRetry
    .ok (s.withQueue q (s.queue.visited.map Storage.unsent))
  | .earlyEnd accepted => do
    let q ← s.queue.earlyDataEnd accepted
    .ok (s.withQueue q (if accepted then [] else s.queue.visited.map Storage.unsent))

/-- A new channel, with splitting or without, and with any limit. -/
def machine (β : Type) : Machine (QueueRun β) (QueueOp β) Fault where
  initial s := ∃ splitting limit, s = { datagrams := {
    sendBuffer := { packetSplitting := splitting }
    dgramQueueLimit := limit } }
  enabled := Enabled
  step := step

/-! ## What 16 bits leave out -/

/-- By how much 16 bits fall short of these sizes. -/
def shortfall (sizes : List Nat) : Nat := (sizes.map fun bytes => bytes - bytes % 2 ^ 16).sum

theorem shortfall_append (l m : List Nat) : shortfall (l ++ m) = shortfall l + shortfall m := by
  simp [shortfall]

theorem shortfall_eq_zero_iff (sizes : List Nat) :
    shortfall sizes = 0 ↔ ∀ bytes ∈ sizes, bytes < 2 ^ 16 := by
  simp only [shortfall, List.sum_eq_zero_iff, List.mem_map, forall_exists_index, and_imp,
    forall_apply_eq_imp_iff₂]
  refine forall₂_congr fun bytes _ => ?_
  omega

theorem sum_unsent_eq {splitting : Bool} {l : List (Storage β)}
    (hfits : ∀ d ∈ l, d.Fits splitting) :
    (l.map Storage.unsent).sum =
      (l.map Storage.unsentSize).sum + shortfall (l.map Storage.unsent) := by
  induction l with
  | nil => rfl
  | cons d rest ih =>
    have hrest := ih fun e he => hfits e (by simp [he])
    have hd := Storage.unsentSize_eq (hfits d (by simp))
    simp only [shortfall, List.map_cons, List.sum_cons, List.map_map] at hrest ⊢
    omega

/-! ## The invariant -/

structure Inv (s : QueueRun β) : Prop where
  queue : s.queue.Inv
  bytes : s.queue.unsentBytes = s.queue.total + shortfall s.measured
  ready : s.fetched = true → ∃ off d part, Ready s.queue off d part

theorem inv_initial (h : (machine β).initial s) : Inv s := by
  obtain ⟨splitting, limit, rfl⟩ := h
  exact ⟨⟨Nat.zero_le _, by simp [queue], trivial, by simp [queue]⟩, rfl, by simp⟩

theorem step_fetch {maxPiece : Nat} {preferSmall : Bool} {out : Option (Prepared β)}
    {q : DatagramQueue β} (h : s.queue.fetch maxPiece preferSmall = .ok (out, q)) :
    step s (.fetch maxPiece preferSmall) =
      .ok { s.withQueue q ((s.queue.dropped maxPiece).map Storage.unsent) with
        fetched := out.isSome } := by
  rw [step, Datagrams.pending_of_fetch h]
  rfl

/-- `fetch` takes the 16-bit sizes of what it drops off `unsent_bytes`. -/
theorem Inv.fetch (h : Inv s) (maxPiece : Nat) (preferSmall : Bool) :
    ∃ t, step s (.fetch maxPiece preferSmall) = .ok t ∧ Inv t ∧
      t.queue.unsentBytes + ((s.queue.dropped maxPiece).map Storage.unsentSize).sum =
        s.queue.unsentBytes := by
  have hbytes := h.bytes
  have htotal := h.queue.total_trimmed maxPiece
  have hsum := sum_unsent_eq (h.queue.dropped_fits maxPiece)
  have happend := shortfall_append s.measured ((s.queue.dropped maxPiece).map Storage.unsent)
  obtain ⟨out, q, hfetch, hq, hqtotal, hqbytes, hready⟩ :=
    fetch_spec h.queue (by omega) maxPiece preferSmall
  have hunsent : q.unsentBytes = s.queue.unsentBytes -
      ((s.queue.dropped maxPiece).map Storage.unsentSize).sum := hqbytes
  refine ⟨_, step_fetch hfetch, ⟨hq, ?_, hready⟩, ?_⟩
  · change q.unsentBytes = q.total + shortfall (_ ++ _)
    omega
  · change q.unsentBytes + _ = _
    omega

theorem Inv.confirm (h : Inv s) (hfetched : s.fetched = true) :
    ∃ t, step s .confirm = .ok t ∧ Inv t := by
  obtain ⟨off, d, part, hready⟩ := h.ready hfetched
  obtain ⟨hq, htotal⟩ := hready.confirmed h.queue
  have hbytes := h.bytes
  have hlast := hready.lastSize_le
  have hconfirm := confirmSent_eq hready h.queue (by omega)
  have hunsent := s.queue.unsentBytes_confirmed off d part
  refine ⟨{ s with
    datagrams := { s.datagrams with sendBuffer := s.queue.confirmed off d part }
    fetched := false }, ?_, hq, ?_, by simp⟩
  · change (do
      let datagrams ← (do
        let q ← s.queue.confirmSent
        .ok { s.datagrams with sendBuffer := q })
      .ok _) = _
    rw [hconfirm]
    rfl
  · change (s.queue.confirmed off d part).unsentBytes =
      (s.queue.confirmed off d part).total + shortfall s.measured
    omega

theorem Inv.send (h : Inv s) (data : List β) :
    Inv { s with datagrams := s.datagrams.sendImpl data } := by
  unfold Datagrams.sendImpl
  split_ifs
  · exact ⟨h.queue, h.bytes, h.ready⟩
  · obtain ⟨hq, htotal⟩ := h.queue.emplace data (s.datagrams.nextDgramCounter <<< 2)
    refine ⟨hq, ?_, fun hfetched => ?_⟩
    · have hbytes := h.bytes
      change s.queue.unsentBytes + data.length =
        (s.queue.emplace data (s.datagrams.nextDgramCounter <<< 2)).total + shortfall s.measured
      omega
    · obtain ⟨off, d, part, hready⟩ := h.ready hfetched
      exact ⟨off, d, part, hready.emplace data _⟩

theorem Inv.lookahead (h : Inv s) (n : Int) :
    Inv { s with datagrams := s.datagrams.setSplitDatagramLookahead n } := by
  refine ⟨⟨h.queue.head_le, h.queue.done, h.queue.waiting, h.queue.fits⟩, h.bytes, fun hfetched => ?_⟩
  obtain ⟨off, d, part, hr⟩ := h.ready hfetched
  exact ⟨off, d, part, hr.get, hr.left, hr.head, hr.splitting, hr.lastI, hr.lastSent, hr.lastSize⟩

theorem inv_withQueue {q : DatagramQueue β} {sizes : List Nat} (hq : q.Inv)
    (hbytes : q.unsentBytes = q.total + shortfall (s.measured ++ sizes)) :
    Inv (s.withQueue q sizes) :=
  ⟨hq, hbytes, by simp [withQueue]⟩

theorem Inv.earlyBegin (h : Inv s) (hempty : s.queue.buf = []) :
    ∃ t, step s .earlyBegin = .ok t ∧ Inv t := by
  have htotal : s.queue.total = 0 := by simp [total, hempty]
  have hbegin : s.queue.earlyDataBegin = .ok { s.queue with earlyDataHead := some 0 } := by
    simp [earlyDataBegin, hempty]
  refine ⟨s.withQueue { s.queue with earlyDataHead := some 0 } [], by rw [step, hbegin, ok_bind],
    inv_withQueue ⟨Nat.zero_le _, ?_, ?_, h.queue.fits⟩ ?_⟩
  · simp [DatagramQueue.head]
  · simp [hempty, Waiting]
  · have hbytes := h.bytes
    have hzero : total { s.queue with earlyDataHead := some 0 } = 0 := by simp [total, hempty]
    rw [hzero, List.append_nil]
    change s.queue.unsentBytes = _
    omega

theorem visited_fits (h : Inv s) {d : Storage β} (hd : d ∈ s.queue.visited) :
    d.Fits s.queue.packetSplitting := by
  refine h.queue.fits d ?_
  unfold visited at hd
  split at hd
  · simp at hd
  · exact List.mem_of_mem_take hd

/-- The queue after `early_data_retry`. -/
theorem Inv.retry (h : Inv s) :
    ∃ q, s.queue.earlyDataRetry = .ok q ∧ q.Inv ∧ q.head = 0 ∧
      q.unsentBytes = q.total + shortfall (s.measured ++ s.queue.visited.map Storage.unsent) := by
  have hbytes := h.bytes
  cases hearly : s.queue.earlyDataHead with
  | none =>
    refine ⟨s.queue, by simp only [earlyDataRetry, hearly], h.queue, ?_, ?_⟩
    · simp [DatagramQueue.head, hearly]
    · simpa [visited, hearly] using hbytes
  | some head =>
    obtain ⟨q, hq, hinv, hhead, -, hunsent, htotal⟩ := earlyDataRetry_spec h.queue hearly
    have hsum := sum_unsent_eq fun d hd => visited_fits h hd
    have happend := shortfall_append s.measured (s.queue.visited.map Storage.unsent)
    exact ⟨q, hq, hinv, by simp [DatagramQueue.head, hhead], by omega⟩

theorem Inv.earlyRetry (h : Inv s) : ∃ t, step s .earlyRetry = .ok t ∧ Inv t := by
  obtain ⟨q, hq, hinv, -, hbytes⟩ := h.retry
  exact ⟨s.withQueue q _, by rw [step, hq, ok_bind], inv_withQueue hinv hbytes⟩

/-- After an early-data head of 0, all of the queue is waiting. -/
theorem inv_endEarly {q : DatagramQueue β} (h : q.Inv) (hhead : q.head = 0) :
    DatagramQueue.Inv { q with earlyDataHead := none } ∧
      total { q with earlyDataHead := none } = q.total := by
  have hwaiting := h.waiting
  rw [hhead] at hwaiting
  refine ⟨⟨Nat.zero_le _, by simp [DatagramQueue.head], hwaiting, h.fits⟩, ?_⟩
  rw [total, total, hhead]
  rfl

theorem earlyDataEnd_rejected {q q' : DatagramQueue β} {head : Nat}
    (hearly : q.earlyDataHead = some head) (h : q.earlyDataRetry = .ok q') :
    q.earlyDataEnd false = .ok { q' with earlyDataHead := none } := by
  simp only [earlyDataEnd, hearly, h, ok_bind, Bool.false_eq_true, if_false]

theorem Inv.earlyEnd (h : Inv s) (accepted : Bool) :
    ∃ t, step s (.earlyEnd accepted) = .ok t ∧ Inv t := by
  cases hearly : s.queue.earlyDataHead with
  | none =>
    have hend : s.queue.earlyDataEnd accepted = .ok s.queue := by simp only [earlyDataEnd, hearly]
    refine ⟨s.withQueue s.queue _, by rw [step, hend, ok_bind], inv_withQueue h.queue ?_⟩
    simpa [visited, hearly] using h.bytes
  | some head =>
    cases accepted with
    | true =>
      obtain ⟨hend, hq, htotal⟩ := earlyDataEnd_accepted h.queue hearly
      refine ⟨s.withQueue _ _, by rw [step, hend, ok_bind], inv_withQueue hq ?_⟩
      have hbytes := h.bytes
      rw [htotal, if_pos rfl, List.append_nil]
      exact hbytes
    | false =>
      obtain ⟨q, hq, hinv, hhead, hbytes⟩ := h.retry
      obtain ⟨hinv', htotal⟩ := inv_endEarly hinv hhead
      refine ⟨s.withQueue _ _, by rw [step, earlyDataEnd_rejected hearly hq, ok_bind],
        inv_withQueue hinv' ?_⟩
      rw [htotal, if_neg (by decide)]
      exact hbytes

theorem inductive_inv : (machine β).Inductive Inv where
  initial _ := inv_initial
  step s op h he := by
    cases op with
    | send data => exact ⟨_, rfl, h.send data⟩
    | fetch maxPiece preferSmall =>
      obtain ⟨t, ht, hinv, -⟩ := h.fetch maxPiece preferSmall
      exact ⟨t, ht, hinv⟩
    | confirm => exact h.confirm he
    | lookahead n => exact ⟨_, rfl, h.lookahead n⟩
    | earlyBegin => exact h.earlyBegin he
    | earlyRetry => exact h.earlyRetry
    | earlyEnd accepted => exact h.earlyEnd accepted

/-! ## The number of pending bytes -/

/-- `pending_bytes` is the number of bytes that wait to be sent as long as nothing that was dropped
or sent again had 65536 of them or more. No operation takes off more than there is. -/
theorem pendingBytes_exact_iff (h : (machine β).Reachable s) :
    (s.queue.pendingBytes = s.queue.total ↔ ∀ bytes ∈ s.measured, bytes < 2 ^ 16) ∧
    (s.queue.empty = true → (s.queue.pendingBytes = 0 ↔ ∀ bytes ∈ s.measured, bytes < 2 ^ 16)) ∧
    (∀ op, Enabled s op → ∃ t, step s op = .ok t) ∧
    ∀ maxPiece preferSmall t, step s (.fetch maxPiece preferSmall) = .ok t →
      (s.queue.pendingBytes =
          t.queue.pendingBytes + ((s.queue.dropped maxPiece).map Storage.unsent).sum ↔
        ∀ d ∈ s.queue.dropped maxPiece, d.unsent < 2 ^ 16) := by
  have hinv := inductive_inv.reachable h
  have hbytes : s.queue.pendingBytes = s.queue.total + shortfall s.measured := hinv.bytes
  have hzero := shortfall_eq_zero_iff s.measured
  refine ⟨?_, fun hempty => ?_, fun op he => inductive_inv.progress h he, ?_⟩
  · rw [← hzero]
    omega
  · have htotal : s.queue.total = 0 := by
      have hle : s.queue.buf.length ≤ s.queue.head := by simpa [empty] using hempty
      simp [total, List.drop_eq_nil_of_le hle]
    rw [← hzero]
    omega
  · intro maxPiece preferSmall t ht
    obtain ⟨t', ht', -, hunsent⟩ := hinv.fetch maxPiece preferSmall
    obtain rfl := Except.ok.inj (ht.symm.trans ht')
    have hsum := sum_unsent_eq (hinv.queue.dropped_fits maxPiece)
    have hdropped := shortfall_eq_zero_iff ((s.queue.dropped maxPiece).map Storage.unsent)
    simp only [List.mem_map, forall_exists_index, and_imp, forall_apply_eq_imp_iff₂] at hdropped
    rw [← hdropped]
    simp only [pendingBytes]
    omega

instance (s : QueueRun β) (op : QueueOp β) [DecidableEq β] : Decidable ((machine β).enabled s op) :=
  match op with
  | .confirm => inferInstanceAs (Decidable (s.fetched = true))
  | .earlyBegin => inferInstanceAs (Decidable (s.queue.buf = []))
  | .send _ | .fetch _ _ | .lookahead _ | .earlyRetry | .earlyEnd _ =>
    inferInstanceAs (Decidable True)

/-- A new channel that splits datagrams. -/
def fresh (β : Type) : QueueRun β := { datagrams := { sendBuffer := { packetSplitting := true } } }

theorem reachable_fresh : (machine β).Reachable (fresh β) := .initial ⟨true, 2000000, rfl⟩

/-- A datagram of 65536 bytes leaves them all behind when it is dropped. -/
theorem dropped_datagram_stays_pending :
    ∃ s : QueueRun Unit, (machine Unit).Reachable s ∧ s.queue.buf = [] ∧ s.queue.total = 0 ∧
      s.queue.pendingBytes = 65536 := by
  obtain ⟨data, hdata⟩ : ∃ data : List Unit, data.length = 65536 :=
    ⟨List.replicate 65536 (), List.length_replicate⟩
  have hsend : (machine Unit).step (fresh Unit) (.send data) = .ok
      { datagrams := (fresh Unit).datagrams.sendImpl data } := rfl
  have hfetch : ((fresh Unit).datagrams.sendImpl data).sendBuffer.fetch 1 false =
      .ok (none, { packetSplitting := true, unsentBytes := 65536 }) := by
    simp [fresh, Datagrams.sendImpl, Datagrams.unsentImpl, pendingBytes, emplace, fetch,
      dropUnsendable, Storage.unsendable, Storage.unsentSize, Storage.size, subUnsent, choose,
      DatagramQueue.head, hdata]
  have hsends (s : QueueRun Unit) : (machine Unit).enabled s (.send data) := trivial
  have hfetches (s : QueueRun Unit) : (machine Unit).enabled s (.fetch 1 false) := trivial
  exact ⟨_, (reachable_fresh.step (hsends _) hsend).step (hfetches _) (step_fetch hfetch), rfl, rfl,
    rfl⟩

theorem pendingBytes_exact_split :
    ∃ s : QueueRun Nat, (machine Nat).Reachable s ∧ s.measured = [] ∧
      s.queue.pendingBytes = s.queue.total ∧ s.queue.total = 6 := by
  have hrun : ((machine Nat).run (fresh Nat) [.send [1, 2, 3], .send [4, 5, 6, 7, 8],
      .fetch 2 false, .confirm]).map (fun s => (s.measured, s.queue.total)) = some ([], 6) := by decide
  obtain ⟨s, hs, hview⟩ := Option.map_eq_some_iff.mp hrun
  obtain ⟨hmeasured, htotal⟩ := Prod.mk.inj hview
  have hreach := reachable_fresh.run hs
  exact ⟨s, hreach, hmeasured, (pendingBytes_exact_iff hreach).1.mpr (by simp [hmeasured]), htotal⟩

/-! ## Sending early data again -/

/-- Everything in the queue will be sent from the start. -/
def Restarted (q : DatagramQueue β) : Prop :=
  (∀ d ∈ q.buf, d.status = .unsent) ∧ q.pendingBytes = (q.buf.map Storage.size).sum

theorem restarted_iff {q : DatagramQueue β} {lost : Nat} (h : q.Inv)
    (hbytes : q.unsentBytes = q.total + lost) :
    Restarted q ↔ (∀ d ∈ q.buf, d.status = .unsent) ∧ lost = 0 := by
  refine and_congr_right fun hall => ?_
  have htotal : q.total = (q.buf.map Storage.size).sum := by
    rw [h.total_eq]
    congr 1
    refine List.map_congr_left fun d hd => ?_
    simp only [Storage.unsent, hall d hd]
  rw [pendingBytes, ← htotal]
  omega

theorem Inv.restarts_iff {head : Nat} (hinv : Inv s) (hearly : s.queue.earlyDataHead = some head) :
    (∃ t, step s .earlyRetry = .ok t ∧ t.queue.earlyDataHead = some 0 ∧
      (Restarted t.queue ↔
        (∀ d ∈ s.queue.buf.drop (s.queue.retryLimit head + 1), d.status = .unsent) ∧
        ∀ bytes ∈ s.measured ++ s.queue.visited.map Storage.unsent, bytes < 2 ^ 16)) ∧
    ∃ t, step s (.earlyEnd false) = .ok t ∧ t.queue.earlyDataHead = none ∧
      (Restarted t.queue ↔
        (∀ d ∈ s.queue.buf.drop (s.queue.retryLimit head + 1), d.status = .unsent) ∧
        ∀ bytes ∈ s.measured ++ s.queue.visited.map Storage.unsent, bytes < 2 ^ 16) := by
  obtain ⟨q, hq, hqinv, hhead, hbytes⟩ := hinv.retry
  obtain ⟨q', hq', -, hqhead, hbuf, -⟩ := earlyDataRetry_spec hinv.queue hearly
  obtain rfl := Except.ok.inj (hq.symm.trans hq')
  have hall : (∀ d ∈ q.buf, d.status = .unsent) ↔
      ∀ d ∈ s.queue.buf.drop (s.queue.retryLimit head + 1), d.status = .unsent := by
    rw [hbuf]
    refine ⟨fun hd d hmem => hd d (List.mem_append_right _ hmem), fun hd d hmem => ?_⟩
    rcases List.mem_append.mp hmem with hmem | hmem
    · obtain ⟨e, -, rfl⟩ := List.mem_map.mp hmem
      rfl
    · exact hd d hmem
  rw [← hall, ← shortfall_eq_zero_iff]
  obtain ⟨hqinv', htotal⟩ := inv_endEarly hqinv hhead
  refine ⟨⟨s.withQueue q _, by rw [step, hq, ok_bind], hqhead, restarted_iff hqinv hbytes⟩,
    ⟨s.withQueue _ _, by rw [step, earlyDataEnd_rejected hearly hq, ok_bind], rfl, ?_⟩⟩
  exact restarted_iff hqinv' (htotal ▸ hbytes)

/-- `early_data_retry` and a rejection reset everything that was sent as early data exactly when
nothing beyond the current lookahead was, and no datagram was too large for `unsent_size`. -/
theorem early_data_restarts_iff {head : Nat} (h : (machine β).Reachable s)
    (hearly : s.queue.earlyDataHead = some head) :
    (∃ t, step s .earlyRetry = .ok t ∧ t.queue.earlyDataHead = some 0 ∧
      (Restarted t.queue ↔
        (∀ d ∈ s.queue.buf.drop (s.queue.retryLimit head + 1), d.status = .unsent) ∧
        ∀ bytes ∈ s.measured ++ s.queue.visited.map Storage.unsent, bytes < 2 ^ 16)) ∧
    ∃ t, step s (.earlyEnd false) = .ok t ∧ t.queue.earlyDataHead = none ∧
      (Restarted t.queue ↔
        (∀ d ∈ s.queue.buf.drop (s.queue.retryLimit head + 1), d.status = .unsent) ∧
        ∀ bytes ∈ s.measured ++ s.queue.visited.map Storage.unsent, bytes < 2 ^ 16) :=
  (inductive_inv.reachable h).restarts_iff hearly

/-- The second part of a datagram was sent ahead, and then the lookahead was lowered: it is not
sent again. -/
theorem lookahead_piece_not_restarted :
    ∃ s t : QueueRun Nat, (machine Nat).Reachable s ∧ s.queue.earlyDataHead = some 0 ∧
      step s .earlyRetry = .ok t ∧
      t.queue.buf.map Storage.status = [.unsent, .sentSecond] := by
  have hrun : ((machine Nat).run (fresh Nat) [.earlyBegin, .send [1, 2, 3], .send [4, 5, 6],
      .fetch 2 true, .confirm, .fetch 2 true, .confirm, .lookahead 0]).bind (fun s =>
        (step s .earlyRetry).toOption.map fun t =>
          (s.queue.earlyDataHead, t.queue.buf.map Storage.status)) =
      some (some 0, [.unsent, .sentSecond]) := by decide
  obtain ⟨s, hs, hnext⟩ := Option.bind_eq_some_iff.mp hrun
  obtain ⟨t, ht, hview⟩ := Option.map_eq_some_iff.mp hnext
  obtain ⟨hearly, hbuf⟩ := Prod.mk.inj hview
  refine ⟨s, t, reachable_fresh.run hs, hearly, ?_, hbuf⟩
  cases hstep : step s .earlyRetry with
  | error _ => simp [hstep, Except.toOption] at ht
  | ok t' => rw [hstep] at ht; exact congrArg _ (Option.some.inj ht)

theorem early_data_restarts_half_sent :
    ∃ s t : QueueRun Nat, (machine Nat).Reachable s ∧ step s .earlyRetry = .ok t ∧
      s.queue.buf.map Storage.status = [.sentSecond, .sentSecond] ∧ Restarted t.queue := by
  have hrun : ((machine Nat).run (fresh Nat) [.earlyBegin, .send [1, 2, 3], .send [4, 5, 6],
      .fetch 2 true, .confirm, .fetch 2 true, .confirm]).map (fun s => (s.queue.earlyDataHead,
        s.queue.buf.drop (s.queue.retryLimit 0 + 1), s.measured, s.queue.visited.map Storage.unsent,
        s.queue.buf.map Storage.status)) =
      some (some 0, [], [], [2, 2], [.sentSecond, .sentSecond]) := by decide
  obtain ⟨s, hs, hview⟩ := Option.map_eq_some_iff.mp hrun
  simp only [Prod.mk.injEq] at hview
  obtain ⟨hearly, hrest, hmeasured, hvisited, hstatus⟩ := hview
  have hreach := reachable_fresh.run hs
  obtain ⟨⟨t, ht, -, hiff⟩, -⟩ := early_data_restarts_iff hreach hearly
  exact ⟨s, t, hreach, ht, hstatus, hiff.mpr (by simp [hrest, hmeasured, hvisited])⟩

/-! ## While the lookahead is not lowered -/

/-- Runs in which the lookahead stays what it is or is raised. -/
def lookaheadKept (β : Type) : Machine (QueueRun β) (QueueOp β) Fault where
  initial := (machine β).initial
  enabled s op := Enabled s op ∧ ∀ n, op = .lookahead n →
    s.queue.splitLookahead ≤ (s.datagrams.setSplitDatagramLookahead n).sendBuffer.splitLookahead
  step := step

/-- What is confirmed is what `fetch` returned last. -/
theorem step_confirm (hinv : Inv s) (hfetched : s.fetched = true) (ht : step s .confirm = .ok t) :
    ∃ off d part, Ready s.queue off d part ∧
      t = { s with
        datagrams := { s.datagrams with sendBuffer := s.queue.confirmed off d part }
        fetched := false } := by
  obtain ⟨off, d, part, hready⟩ := hinv.ready hfetched
  have hbytes := hinv.bytes
  have hlast := hready.lastSize_le
  have hconfirm := confirmSent_eq hready hinv.queue (by omega)
  obtain ⟨datagrams, hdatagrams, ht⟩ := bind_ok ht
  obtain ⟨q, hq, hdatagrams⟩ := bind_ok hdatagrams
  obtain rfl := Except.ok.inj (hconfirm.symm.trans hq)
  cases hdatagrams
  cases ht
  exact ⟨off, d, part, hready, rfl⟩

theorem step_earlyBegin (ht : step s .earlyBegin = .ok t) :
    t.queue.buf = [] ∧ t.fetched = false := by
  obtain ⟨q, hq, ht⟩ := bind_ok ht
  cases ht
  unfold earlyDataBegin at hq
  split_ifs at hq with hnil
  cases hq
  exact ⟨List.isEmpty_iff.mp hnil, rfl⟩

/-- Nothing has been sent beyond the lookahead, and the piece that can be confirmed is within it. -/
structure Near (s : QueueRun β) : Prop where
  beyond : ∀ d ∈ s.queue.buf.drop (s.queue.retryLimit s.queue.head + 1), d.status = .unsent
  last : s.fetched = true → s.queue.lastI ≤ s.queue.retryLimit s.queue.head

theorem near_of_unsent {q : DatagramQueue β} (h : ∀ d ∈ q.buf, d.status = .unsent)
    (sizes : List Nat) : Near (s.withQueue q sizes) :=
  ⟨fun d hd => h d (List.mem_of_mem_drop hd), by simp [withQueue]⟩

/-- The rest of the queue is part of what was there, and the head is no further away. -/
theorem Near.shrink {q : DatagramQueue β} {n : Nat} (h : Near s)
    (hdrop : q.buf.drop (q.retryLimit q.head + 1) =
      s.queue.buf.drop (s.queue.retryLimit s.queue.head + 1 + n)) :
    ∀ d ∈ q.buf.drop (q.retryLimit q.head + 1), d.status = .unsent := by
  intro d hd
  rw [hdrop, ← List.drop_drop] at hd
  exact h.beyond d (List.mem_of_mem_drop hd)

theorem Near.fetch (h : Near s) (hinv : Inv s) {maxPiece : Nat} {preferSmall : Bool}
    (ht : step s (.fetch maxPiece preferSmall) = .ok t) : Near t := by
  have hbytes : s.queue.total ≤ s.queue.unsentBytes := by
    have := hinv.bytes
    omega
  have hfetch := fetch_eq hinv.queue hbytes maxPiece preferSmall
  have htrimmed : (s.queue.trimmed maxPiece).buf.drop (s.queue.retryLimit s.queue.head + 1) =
      s.queue.buf.drop
        (s.queue.retryLimit s.queue.head + 1 + (s.queue.dropped maxPiece).length) := by
    rw [trimmed_buf, List.drop_drop, Nat.add_comm]
  rcases choose_spec (hinv.queue.trimmed maxPiece) maxPiece preferSmall with ⟨-, hchoose⟩ |
    ⟨off, d, d', part, hc, hchoose⟩
  · rw [step_fetch (hfetch.trans hchoose)] at ht
    cases ht
    exact ⟨h.shrink htrimmed, by simp⟩
  · rw [step_fetch (hfetch.trans hchoose)] at ht
    cases ht
    have hnear : s.queue.head + off ≤ s.queue.retryLimit s.queue.head := by
      have hahead : off ≤ s.queue.splitLookahead := hc.ahead
      by_cases hpart : part = .whole
      · have := hc.head (by simp [hpart])
        unfold retryLimit
        omega
      · have hs : s.queue.packetSplitting = true := hc.splitting hpart
        rw [retryLimit, if_pos hs]
        omega
    have hset : ((s.queue.trimmed maxPiece).buf.set (s.queue.head + off) d').drop
        (s.queue.retryLimit s.queue.head + 1) =
        (s.queue.trimmed maxPiece).buf.drop (s.queue.retryLimit s.queue.head + 1) := by
      rw [List.drop_set, if_pos (by omega)]
    exact ⟨h.shrink (hset.trans htrimmed), fun _ => hnear⟩

theorem Near.confirm (h : Near s) (hinv : Inv s) (hfetched : s.fetched = true)
    (ht : step s .confirm = .ok t) : Near t := by
  obtain ⟨off, d, part, hready, rfl⟩ := step_confirm hinv hfetched ht
  have hnear : s.queue.head + off ≤ s.queue.retryLimit s.queue.head :=
    hready.lastI ▸ h.last hfetched
  have hmarked : (s.queue.marked off d part).buf.drop (s.queue.retryLimit s.queue.head + 1) =
      s.queue.buf.drop (s.queue.retryLimit s.queue.head + 1) := by
    change (s.queue.buf.set (s.queue.head + off) _).drop _ = _
    rw [List.drop_set, if_pos (by omega)]
  refine ⟨?_, by simp⟩
  change ∀ e ∈ (s.queue.confirmed off d part).buf.drop
    ((s.queue.confirmed off d part).retryLimit (s.queue.confirmed off d part).head + 1), _
  unfold confirmed
  split_ifs
  · refine h.shrink (n := 1) ?_
    have hnext : s.queue.buf.drop (s.queue.retryLimit s.queue.head + 1 + 1) =
        (s.queue.marked off d part).buf.drop (s.queue.retryLimit s.queue.head + 1 + 1) := by
      rw [← List.drop_drop, ← hmarked, List.drop_drop]
    rw [hnext]
    unfold popped
    cases hearly : s.queue.earlyDataHead with
    | none =>
      have hhead : s.queue.head = 0 := by simp [DatagramQueue.head, hearly]
      simp only [marked, hearly, List.drop_tail, DatagramQueue.head, retryLimit, Option.getD_none]
    | some head =>
      simp only [marked, hearly, DatagramQueue.head, retryLimit, Option.getD_some]
      congr 1
      omega
  · exact h.shrink (n := 0) hmarked

theorem Near.lookahead (h : Near s) {n : Int} (hle : s.queue.splitLookahead ≤
      (s.datagrams.setSplitDatagramLookahead n).sendBuffer.splitLookahead) :
    Near { s with datagrams := s.datagrams.setSplitDatagramLookahead n } := by
  have hlimit : s.queue.retryLimit s.queue.head ≤
      (s.datagrams.setSplitDatagramLookahead n).sendBuffer.retryLimit s.queue.head := by
    unfold retryLimit
    change _ + (if s.queue.packetSplitting = true then _ else 0) ≤
      _ + if s.queue.packetSplitting = true then _ else 0
    split_ifs <;> omega
  refine ⟨fun d hd => h.beyond d ?_, fun hfetched => (h.last hfetched).trans hlimit⟩
  exact (List.drop_sublist_drop_left _ (Nat.succ_le_succ hlimit)).subset hd

/-- All that was sent is within what a retry goes through. -/
theorem Near.unsent_of_retry (h : Near s) (hinv : Inv s) {q : DatagramQueue β} {head : Nat}
    (hearly : s.queue.earlyDataHead = some head) (hq : s.queue.earlyDataRetry = .ok q) :
    ∀ d ∈ q.buf, d.status = .unsent := by
  obtain ⟨q', hq', -, -, hbuf, -⟩ := earlyDataRetry_spec hinv.queue hearly
  obtain rfl := Except.ok.inj (hq.symm.trans hq')
  have hhead : s.queue.head = head := by simp [DatagramQueue.head, hearly]
  rw [hbuf]
  intro d hd
  rcases List.mem_append.mp hd with hd | hd
  · obtain ⟨e, -, rfl⟩ := List.mem_map.mp hd
    rfl
  · exact h.beyond d (hhead ▸ hd)

/-- What was sent as early data leaves the queue, and the rest moves to its front. -/
theorem Near.earlyAccepted (h : Near s) (hinv : Inv s) {q : DatagramQueue β} {head : Nat}
    {sizes : List Nat} (hearly : s.queue.earlyDataHead = some head)
    (hq : s.queue.earlyDataEnd true = .ok q) : Near (s.withQueue q sizes) := by
  obtain ⟨hend, -, -⟩ := earlyDataEnd_accepted hinv.queue hearly
  obtain rfl := Except.ok.inj (hend.symm.trans hq)
  have hhead : s.queue.head = head := by simp [DatagramQueue.head, hearly]
  have hlimit : s.queue.retryLimit head = head + s.queue.retryLimit 0 := by simp [retryLimit]
  refine ⟨h.shrink (n := 0) ?_, by simp [withQueue]⟩
  rw [hhead, hlimit]
  change (s.queue.buf.drop head).drop (s.queue.retryLimit 0 + 1) = _
  rw [List.drop_drop, ← Nat.add_assoc]

/-- No step sends beyond the lookahead, unless it is lowered. -/
theorem Near.step {op : QueueOp β} (h : Near s) (hinv : Inv s)
    (he : (lookaheadKept β).enabled s op) (ht : QueueRun.step s op = .ok t) : Near t := by
  cases op with
  | send data =>
    cases ht
    unfold Datagrams.sendImpl
    split_ifs
    · exact ⟨h.beyond, h.last⟩
    · refine ⟨fun d hd => ?_, h.last⟩
      rcases List.mem_append.mp ((List.drop_append ..).symm ▸ hd) with hd | hd
      · exact h.beyond d hd
      · obtain rfl := List.mem_singleton.mp (List.mem_of_mem_drop hd)
        rfl
  | fetch maxPiece preferSmall => exact h.fetch hinv ht
  | confirm => exact h.confirm hinv he.1 ht
  | lookahead n =>
    cases ht
    exact h.lookahead (he.2 n rfl)
  | earlyBegin =>
    obtain ⟨hbuf, hfetched⟩ := step_earlyBegin ht
    exact ⟨by simp [hbuf], by simp [hfetched]⟩
  | earlyRetry =>
    obtain ⟨q, hq, ht⟩ := bind_ok ht
    cases ht
    cases hearly : s.queue.earlyDataHead with
    | none =>
      have hsame : s.queue.earlyDataRetry = .ok s.queue := by simp only [earlyDataRetry, hearly]
      obtain rfl := Except.ok.inj (hsame.symm.trans hq)
      exact ⟨h.beyond, by simp [withQueue]⟩
    | some head => exact near_of_unsent (h.unsent_of_retry hinv hearly hq) _
  | earlyEnd accepted =>
    obtain ⟨q, hq, ht⟩ := bind_ok ht
    cases ht
    cases hearly : s.queue.earlyDataHead with
    | none =>
      have hsame : s.queue.earlyDataEnd accepted = .ok s.queue := by
        simp only [earlyDataEnd, hearly]
      obtain rfl := Except.ok.inj (hsame.symm.trans hq)
      exact ⟨h.beyond, by simp [withQueue]⟩
    | some head =>
      cases accepted with
      | true => exact h.earlyAccepted hinv hearly hq
      | false =>
        obtain ⟨q', hq', -⟩ := hinv.retry
        rw [earlyDataEnd_rejected hearly hq'] at hq
        cases hq
        have hall := h.unsent_of_retry hinv hearly hq'
        exact near_of_unsent (q := { q' with earlyDataHead := none }) hall _

theorem inductive_near : (lookaheadKept β).Inductive fun s => Inv s ∧ Near s where
  initial s hs := by
    refine ⟨inv_initial hs, ?_⟩
    obtain ⟨splitting, limit, rfl⟩ := hs
    exact ⟨by simp [queue], by simp⟩
  step s op h he := by
    obtain ⟨t, ht, hinv⟩ := inductive_inv.step s op h.1 he.1
    exact ⟨t, ht, hinv, h.2.step h.1 he ht⟩

/-- As long as the lookahead is not lowered, only datagrams that are too large for `unsent_size` can
keep `early_data_retry` and a rejection from resetting everything. -/
theorem restarts_of_lookaheadKept {head : Nat} (h : (lookaheadKept β).Reachable s)
    (hearly : s.queue.earlyDataHead = some head) :
    (∃ t, step s .earlyRetry = .ok t ∧ t.queue.earlyDataHead = some 0 ∧
      (Restarted t.queue ↔
        ∀ bytes ∈ s.measured ++ s.queue.visited.map Storage.unsent, bytes < 2 ^ 16)) ∧
    ∃ t, step s (.earlyEnd false) = .ok t ∧ t.queue.earlyDataHead = none ∧
      (Restarted t.queue ↔
        ∀ bytes ∈ s.measured ++ s.queue.visited.map Storage.unsent, bytes < 2 ^ 16) := by
  obtain ⟨hinv, hnear⟩ := inductive_near.reachable h
  have hhead : s.queue.head = head := by simp [DatagramQueue.head, hearly]
  have hbeyond := hhead ▸ hnear.beyond
  obtain ⟨⟨t, ht, hthead, htiff⟩, u, hu, huhead, huiff⟩ := hinv.restarts_iff hearly
  exact ⟨⟨t, ht, hthead, htiff.trans (and_iff_right hbeyond)⟩, u, hu, huhead,
    huiff.trans (and_iff_right hbeyond)⟩

end QueueRun

end Libquic
