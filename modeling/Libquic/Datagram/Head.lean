import Libquic.Datagram.Pending

/-!
# The head of the datagram queue

Which datagram `fetch` takes. Without `prefer_small` it is the head. With it, `fetch` is documented
to look for a small piece only where the head itself is split, but the lookahead loop passes over
a head that fits in one piece and takes the second part of a datagram behind it.
-/
namespace Libquic

open Lib

variable {β : Type}

namespace DatagramQueue

variable {q : DatagramQueue β} {d : Storage β} {maxPiece : Nat}

/-! ## Looking ahead -/

/-- No datagram that the lookahead loop visits can be split. -/
theorem lookAhead_none_iff (maxPiece lookahead off : Nat) {l : List (Storage β)}
    (hall : ∀ e ∈ l, e.status = .unsent ∨ e.status = .sentSecond) :
    lookAhead maxPiece lookahead off l = .ok none ↔
      ∀ k e, l[k]? = some e → off + k ≤ lookahead → e.status = .unsent → e.size ≤ maxPiece := by
  induction l generalizing off with
  | nil => simp [lookAhead]
  | cons d rest ih =>
    have hrest := ih (off + 1) fun e he => hall e (List.mem_cons_of_mem d he)
    -- the loop goes on behind `d` and `d` is no candidate
    have hnext (hd : off ≤ lookahead → d.status = .unsent → d.size ≤ maxPiece) :
        lookAhead maxPiece lookahead (off + 1) rest = .ok none ↔ ∀ k e, (d :: rest)[k]? = some e →
          off + k ≤ lookahead → e.status = .unsent → e.size ≤ maxPiece := by
      rw [hrest]
      constructor
      · intro h k e hget hle hunsent
        cases k with
        | zero =>
          obtain rfl : d = e := by simpa using hget
          exact hd (by omega) hunsent
        | succ k => exact h k e (by simpa using hget) (by omega) hunsent
      · intro h k e hget hle hunsent
        exact h (k + 1) e (by simpa using hget) (by omega) hunsent
    unfold lookAhead
    by_cases hroom : lookahead < off
    · rw [if_pos hroom]
      exact iff_of_true rfl fun k e _ hle => by omega
    rw [if_neg hroom]
    rcases hall d List.mem_cons_self with hstatus | hstatus
    · simp only [hstatus, SendStatus.hasSecond, Bool.false_eq_true, ne_eq, not_true_eq_false,
        and_false, reduceCtorEq, if_false]
      by_cases hlong : maxPiece < d.size
      · have hpos : maxPiece % 2 ^ 16 ≤ d.payload.length := (Nat.mod_le _ _).trans hlong.le
        simp only [if_pos hlong, subspanFrom_ok hpos, ok_bind]
        refine iff_of_false (by simp) fun h => ?_
        have := h 0 d rfl (by omega) hstatus
        omega
      · rw [if_neg hlong]
        exact hnext fun _ _ => by omega
    · simp only [hstatus, SendStatus.hasSecond, if_true]
      exact hnext fun _ hunsent => by simp [hstatus] at hunsent

/-- A datagram behind the head, within the lookahead, is unsent and has to be split. -/
def SplitAhead (maxPiece : Nat) (q : DatagramQueue β) : Prop :=
  ∃ k e, 0 < k ∧ k ≤ q.splitLookahead ∧ q.buf[q.head + k]? = some e ∧ e.status = .unsent ∧
    maxPiece < e.size

/-- With a head that is unsent and fits, a small piece is one of a datagram behind it. -/
theorem smallPiece_none_iff (h : Inv q) (hget : q.buf[q.head]? = some d)
    (hunsent : d.status = .unsent) (hsize : d.size ≤ maxPiece) (preferSmall : Bool) :
    q.smallPiece maxPiece preferSmall = .ok none ↔
      ¬ (preferSmall = true ∧ q.packetSplitting = true ∧ SplitAhead maxPiece q) := by
  unfold smallPiece
  by_cases hprefer : (preferSmall && q.packetSplitting) = true
  · rw [if_pos hprefer, lookAhead_none_iff maxPiece q.splitLookahead 0 ?_]
    · simp only [getElem?_waiting]
      rw [Bool.and_eq_true] at hprefer
      constructor
      · rintro hnone ⟨-, -, k, e, hpos, hle, he, hstatus, hlong⟩
        have := hnone k e he (by omega) hstatus
        omega
      · intro hahead k e he hle hstatus
        by_contra hlong
        cases k with
        | zero =>
          obtain rfl : d = e := Option.some.inj (hget.symm.trans he)
          exact hlong hsize
        | succ k =>
          exact hahead ⟨hprefer.1, hprefer.2, k + 1, e, by omega, by omega, he, hstatus, by omega⟩
    · intro e he
      obtain ⟨k, hk⟩ := List.getElem?_of_mem he
      cases k with
      | zero =>
        rw [getElem?_waiting] at hk
        obtain rfl : d = e := Option.some.inj (hget.symm.trans hk)
        exact .inl hunsent
      | succ k => exact h.waiting.ahead hk (Nat.succ_ne_zero k)
  · rw [if_neg hprefer]
    refine iff_of_true rfl fun hsmall => hprefer ?_
    rw [hsmall.1, hsmall.2.1]
    rfl

/-! ## The head in one piece -/

/-- What `fetch` leaves when it returns all of the head. -/
def wholeHead (d : Storage β) (q : DatagramQueue β) : Option (Prepared β) × DatagramQueue β :=
  (some ⟨q.packetSplitting, d.baseDgid, d.payload⟩,
    { q with lastI := q.head, lastSent := .sent, lastSize := d.size })

theorem prepare_whole (hget : q.buf[q.head]? = some d) :
    q.prepare q.head d .sent 0 d.payload = q.wholeHead d := by
  have hset : q.buf.set q.head d = q.buf := by
    obtain ⟨hlt, rfl⟩ := List.getElem?_eq_some_iff.mp hget
    exact List.set_getElem_self hlt
  rw [prepare, hset, Nat.or_zero]
  rfl

theorem headPiece_whole (hunsent : d.status = .unsent) (hsize : d.size ≤ maxPiece)
    (splitting : Bool) : headPiece maxPiece splitting d = .ok (d, .sent, 0, d.payload) := by
  unfold headPiece
  rw [if_neg (by simp [hunsent])]
  cases splitting with
  | false => rfl
  | true => simp [hunsent, Nat.not_lt.mpr hsize]

theorem choose_whole_iff (h : Inv q) (hget : q.buf[q.head]? = some d)
    (hunsent : d.status = .unsent) (hsize : d.size ≤ maxPiece) (preferSmall : Bool) :
    q.choose maxPiece preferSmall = .ok (q.wholeHead d) ↔
      ¬ (preferSmall = true ∧ q.packetSplitting = true ∧ SplitAhead maxPiece q) := by
  rw [← smallPiece_none_iff h hget hunsent hsize preferSmall]
  obtain ⟨small, hsmall, -, -⟩ := smallPiece_spec h maxPiece preferSmall
  simp only [choose, hget, hsmall, ok_bind]
  cases small with
  | none =>
    simp only [headPiece_whole hunsent hsize, ok_bind, prepare_whole hget]
  | some piece =>
    -- a second part is marked as such
    refine iff_of_false (fun heq => ?_) (by simp)
    have hlast := congrArg (fun r => r.2.lastSent) (Except.ok.inj heq)
    simp [prepare, wholeHead] at hlast

/-- The head can be dropped although it fits only where twice the size of a piece wraps. -/
theorem unsendable_iff (hm : maxPiece < 2 ^ 64) (hunsent : d.status = .unsent)
    (hsize : d.size ≤ maxPiece) (splitting : Bool) :
    d.unsendable maxPiece splitting = true ↔
      splitting = true ∧ maxPiece * 2 % 2 ^ 64 < d.size := by
  simp only [Storage.unsendable, hunsent, decide_eq_true_eq]
  cases splitting with
  | false =>
    simp only [Bool.false_eq_true, if_false, false_and, iff_false]
    omega
  | true => simp

/-- Only a head at the front of the queue can be dropped. -/
theorem dropped_eq_nil_iff (h : Inv q) (hget : q.buf[q.head]? = some d) (maxPiece : Nat) :
    q.dropped maxPiece = [] ↔
      ¬ (q.head = 0 ∧ d.unsendable maxPiece q.packetSplitting = true) := by
  by_cases hhead : q.head = 0
  · rw [hhead] at hget
    unfold dropped
    cases hbuf : q.buf with
    | nil => simp [hbuf] at hget
    | cons e rest =>
      obtain rfl : e = d := by simpa [hbuf] using hget
      simp [List.takeWhile_cons, hhead]
  · refine iff_of_true ?_ fun hdrop => hhead hdrop.1
    by_contra hne
    exact hhead (h.head_eq_zero hne)

theorem trimmed_eq (hnil : q.dropped maxPiece = []) : q.trimmed maxPiece = q := by
  have hbuf : q.buf.dropWhile (·.unsendable maxPiece q.packetSplitting) = q.buf := by
    have := dropped_append maxPiece q
    rwa [hnil, List.nil_append] at this
  rw [trimmed, hbuf, hnil]
  rfl

/-- Where the head is dropped the queue is shorter afterwards. -/
theorem choose_trimmed_ne (h : Inv q) (hdrop : q.dropped maxPiece ≠ []) (preferSmall : Bool) :
    (q.trimmed maxPiece).choose maxPiece preferSmall ≠ .ok (q.wholeHead d) := by
  intro heq
  have hlen : (q.trimmed maxPiece).buf.length < q.buf.length := by
    have := congrArg List.length (dropped_append maxPiece q)
    have := List.length_pos_of_ne_nil hdrop
    rw [List.length_append] at *
    omega
  obtain ⟨-, hnone⟩ | ⟨off, e, e', part, -, hsome⟩ :=
    choose_spec (h.trimmed maxPiece) maxPiece preferSmall
  · have hout := congrArg Prod.fst (Except.ok.inj (hnone.symm.trans heq))
    exact absurd hout (by simp [wholeHead])
  · have hout := congrArg (fun r => r.2.buf.length) (Except.ok.inj (hsome.symm.trans heq))
    simp only [prepare, wholeHead, List.length_set] at hout
    omega

theorem fetch_whole_iff (h : Inv q) (hbytes : q.total ≤ q.unsentBytes) (hm : maxPiece < 2 ^ 64)
    (hget : q.buf[q.head]? = some d) (hunsent : d.status = .unsent) (hsize : d.size ≤ maxPiece)
    (preferSmall : Bool) :
    q.fetch maxPiece preferSmall = .ok (q.wholeHead d) ↔
      ¬ (q.head = 0 ∧ q.packetSplitting = true ∧ maxPiece * 2 % 2 ^ 64 < d.size) ∧
      ¬ (preferSmall = true ∧ q.packetSplitting = true ∧ SplitAhead maxPiece q) := by
  have hdropped := dropped_eq_nil_iff h hget maxPiece
  rw [unsendable_iff hm hunsent hsize] at hdropped
  rw [fetch_eq h hbytes, ← hdropped]
  by_cases hnil : q.dropped maxPiece = []
  · rw [trimmed_eq hnil, choose_whole_iff h hget hunsent hsize]
    exact (and_iff_right hnil).symm
  · exact iff_of_false (choose_trimmed_ne h hnil preferSmall) fun hand => hnil hand.1

/-! ## Without a preference -/

/-- Without `prefer_small` the piece is one of the head, with its first part before its second. -/
theorem choose_head (h : Inv q) (hget : q.buf[q.head]? = some d) (maxPiece : Nat) :
    ∃ d', q.choose maxPiece false = .ok (q.prepare q.head d'
        (headPart maxPiece q.packetSplitting d).status (headPart maxPiece q.packetSplitting d).bits
        ((headPart maxPiece q.packetSplitting d).data d')) ∧
      d.Resplit d' ∧ (headPart maxPiece q.packetSplitting d).Left d' := by
  have hwaiting : d ∈ q.buf.drop q.head :=
    List.mem_of_getElem? (i := 0) (by rw [getElem?_waiting]; exact hget)
  obtain ⟨d', hpiece, hresplit, hleft, -⟩ := headPiece_spec maxPiece
    (h.waiting.ne_sent hwaiting) (h.fits d (List.mem_of_getElem? hget))
  refine ⟨d', ?_, hresplit, hleft⟩
  simp only [choose, hget, smallPiece, Bool.false_and, Bool.false_eq_true, if_false, ok_bind,
    hpiece]

end DatagramQueue

namespace QueueRun

open DatagramQueue

variable {s : QueueRun β}

/-- A head that is unsent and fits is returned whole exactly if twice the size of a piece does not
wrap below it and no small piece is looked for where a datagram behind the head has to be split.
Without `prefer_small` the piece returned is always one of the head, once datagrams that cannot be
sent are gone: what is left of it, with the first part before the second. -/
theorem fetch_takes_head {maxPiece : Nat} (h : (machine β).Reachable s) (hm : maxPiece < 2 ^ 64) :
    (∀ d preferSmall, s.queue.buf[s.queue.head]? = some d → d.status = .unsent →
      d.size ≤ maxPiece →
      (s.queue.fetch maxPiece preferSmall = .ok (s.queue.wholeHead d) ↔
        ¬ (s.queue.head = 0 ∧ s.queue.packetSplitting = true ∧ maxPiece * 2 % 2 ^ 64 < d.size) ∧
        ¬ (preferSmall = true ∧ s.queue.packetSplitting = true ∧ SplitAhead maxPiece s.queue))) ∧
    (∀ d, (s.queue.trimmed maxPiece).buf[s.queue.head]? = some d →
      ∃ d', s.queue.fetch maxPiece false = .ok ((s.queue.trimmed maxPiece).prepare s.queue.head d'
          (headPart maxPiece s.queue.packetSplitting d).status
          (headPart maxPiece s.queue.packetSplitting d).bits
          ((headPart maxPiece s.queue.packetSplitting d).data d')) ∧
        d.Resplit d' ∧ (headPart maxPiece s.queue.packetSplitting d).Left d') ∧
    ((s.queue.trimmed maxPiece).buf[s.queue.head]? = none →
      ∀ preferSmall, s.queue.fetch maxPiece preferSmall = .ok (none, s.queue.trimmed maxPiece)) := by
  have hinv := inductive_inv.reachable h
  have hbytes : s.queue.total ≤ s.queue.unsentBytes := by
    have := hinv.bytes
    omega
  refine ⟨?_, ?_, ?_⟩
  · intro d preferSmall hget hunsent hsize
    exact fetch_whole_iff hinv.queue hbytes hm hget hunsent hsize preferSmall
  · intro d hget
    rw [fetch_eq hinv.queue hbytes]
    exact choose_head (hinv.queue.trimmed maxPiece) hget maxPiece
  · intro hget preferSmall
    rw [fetch_eq hinv.queue hbytes, choose]
    have hget' : (s.queue.trimmed maxPiece).buf[(s.queue.trimmed maxPiece).head]? = none := hget
    rw [hget']

/-- The head is one byte and fits, but the piece returned is the end of the next datagram. -/
theorem small_piece_overtakes_head :
    ∃ (s : QueueRun Nat) (d : Storage Nat), (machine Nat).Reachable s ∧
      s.queue.buf[s.queue.head]? = some d ∧ d.status = .unsent ∧ d.size ≤ 2 ∧
      (s.queue.fetch 2 true).toOption.map (fun r => (r.1.map Prepared.payload, r.2.lastI)) =
        some (some [4], 1) := by
  have hrun : ((machine Nat).run (fresh Nat) [.send [1], .send [2, 3, 4]]).map (fun s =>
      (s.queue.buf[s.queue.head]?, (s.queue.fetch 2 true).toOption.map (fun r =>
        (r.1.map Prepared.payload, r.2.lastI)))) =
      some (some { baseDgid := 0, payload := [1] }, some (some [4], 1)) := by decide
  obtain ⟨s, hs, hview⟩ := Option.map_eq_some_iff.mp hrun
  obtain ⟨hget, hfetch⟩ := Prod.mk.inj hview
  exact ⟨s, _, reachable_fresh.run hs, hget, rfl, by decide, hfetch⟩

theorem fetch_takes_head_short :
    ∃ (s : QueueRun Nat) (d : Storage Nat), (machine Nat).Reachable s ∧
      s.queue.buf[s.queue.head]? = some d ∧ d.payload = [1] ∧
      s.queue.fetch 3 true = .ok (s.queue.wholeHead d) := by
  have hrun : ((machine Nat).run (fresh Nat) [.send [1], .send [2, 3, 4]]).map (fun s =>
      (s.queue.buf, s.queue.earlyDataHead)) = some ([{ baseDgid := 0, payload := [1] },
        { baseDgid := 4, payload := [2, 3, 4] }], none) := by decide
  obtain ⟨s, hs, hview⟩ := Option.map_eq_some_iff.mp hrun
  obtain ⟨hbuf, hearly⟩ := Prod.mk.inj hview
  have hreach := reachable_fresh.run hs
  have hget : s.queue.buf[s.queue.head]? = some { baseDgid := 0, payload := [1] } := by
    rw [hbuf, DatagramQueue.head, hearly]
    rfl
  refine ⟨s, _, hreach, hget, rfl,
    ((fetch_takes_head hreach (by decide)).1 _ true hget rfl (by decide)).mpr ⟨?_, ?_⟩⟩
  · simp [Storage.size]
  · rintro ⟨-, -, k, e, hpos, -, he, -, hlong⟩
    rw [hbuf, DatagramQueue.head, hearly] at he
    obtain rfl | hk : k = 1 ∨ 2 ≤ k := by omega
    · obtain rfl : _ = e := Option.some.inj he
      simp [Storage.size] at hlong
    · rw [List.getElem?_eq_none (by simpa using hk)] at he
      cases he

end QueueRun

end Libquic
