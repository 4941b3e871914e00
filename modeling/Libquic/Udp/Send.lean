import Libquic.Udp.Gso

/-!
# The UDP socket

`UDPSocket::send` where both `sendmmsg` and GSO are available: with GSO if the socket still uses it,
and otherwise, or when the kernel has refused that, with a message for each packet. What the kernel
answers is an input; a call that a signal interrupts is made again, and the answer is that of the
last call. `wire` is what the kernel has sent. Source addresses are left out.

`Endpoint::send_packets` can send with this socket as with any other: each run on it is one of
`sendLoop` for some answers, with the packets that really were sent.
-/
namespace Libquic

open Lib Lib.Memory

variable {ε : Type}

/-! ## Results -/

/-- `EAGAIN` -/
def errAgain : Nat := 11
/-- `EINVAL` -/
def errInval : Nat := 22
/-- `EMSGSIZE` -/
def errMsgSize : Nat := 90
/-- `ENETDOWN` -/
def errNetDown : Nat := 100
/-- `ENETUNREACH` -/
def errNetUnreach : Nat := 101
/-- `ENOBUFS` -/
def errNoBufs : Nat := 105
/-- `EHOSTUNREACH` -/
def errHostUnreach : Nat := 113

/-- The predicates of `io_result`, for a value of `errno`. -/
def IoResult.ofErrno (errno : Nat) : IoResult :=
  if errno = 0 then .ok
  else if errno = errAgain then .blocked
  else if errno = errMsgSize then .tooBig
  else if errno = errNoBufs then .noBuffers
  else if errno = errNetUnreach ∨ errno = errHostUnreach ∨ errno = errNetDown then .unreachable
  else .failure errno

/-- The answer to `sendmmsg`: `errno`, or the number of packets that the kernel has sent. -/
inductive KernelAnswer where
  | error (errno : Nat)
  | sent (k : Nat)
  deriving DecidableEq, Repr

/-- The answers during one call of `UDPSocket::send`, to a send with GSO and to one without. -/
structure KernelCall where
  gso : KernelAnswer
  plain : KernelAnswer
  deriving DecidableEq, Repr

structure UdpSocket (ε : Type) where
  gso : Bool
  wire : List (Packet ε) := []
  deriving DecidableEq, Repr

/-! ## Sending -/

section Send

variable [Inhabited ε]

/-- The part of `UDPSocket::send` without GSO, after the GSO error that led there if there was
one. -/
def sendPlain (answer : KernelAnswer) (gsoError : Option Nat) (a : Arrays ε) (n : Nat)
    (s : UdpSocket ε) : Except Fault (IoResult × Nat × UdpSocket ε) :=
  if (a.size.take n).any (· == 0) then .error .assertion
  else
    let sent := match answer with
      | .error _ => 0
      | .sent k => min k n
    let result := match answer with
      | .error errno => IoResult.ofErrno errno
      | .sent _ => .ok
    -- with EINVAL, GSO was at fault only if the packets can be sent without
    let disable := gsoError == some errIo || gsoError == some errInval && sent == n
    .ok (result, sent,
      { gso := if disable then false else s.gso, wire := s.wire ++ (a.read n).take sent })

variable [DecidableEq ε]

/-- `UDPSocket::send` -/
def udpSend (kernel : KernelCall) (a : Arrays ε) (n : Nat) (s : UdpSocket ε) :
    Except Fault (IoResult × Nat × UdpSocket ε) :=
  if s.gso then do
    let msgs ← gsoMessages a n
    match kernel.gso with
    | .sent k =>
      let k := min k n
      let sent ← sentLoop (reported a.buf k msgs) false 0
      .ok (.ok, sent, { s with wire := s.wire ++ (msgs.flatMap (·.segments a.buf)).take k })
    | .error errno =>
      if errno ≠ errIo ∧ errno ≠ errInval then .ok (IoResult.ofErrno errno, 0, s)
      else sendPlain kernel.plain (some errno) a n s
  else sendPlain kernel.plain none a n s

/-- The loop of `send_packets` on this socket. -/
def udpSendLoop (kernel : Nat → KernelCall) :
    Nat → Nat → Bool → Arrays ε → Nat → Nat → UdpSocket ε →
      Except Fault (Option (SendResult ε × UdpSocket ε))
  | 0, _, _, _, _, _, _ => .ok none
  | fuel + 1, call, retried, a, n, tooBig, s => do
    let (ret, sent, s) ← udpSend (kernel call) a n s
    let a := if 0 < sent ∧ sent < n then a.shiftUnsent sent n else a
    let n := n - sent
    if n = 0 then .ok (some (⟨.ok, a, 0, tooBig, s.wire⟩, s))
    else match ret with
      | .blocked => .ok (some (⟨.blocked, a, n, tooBig, s.wire⟩, s))
      | .tooBig =>
        let size := a.size.getD 0 0
        let tooBig := if tooBig = 0 then size else min tooBig size
        let (n, a) := a.dropPacketsFrom n size
        if n = 0 then .ok (some (⟨.ok, a, 0, tooBig, s.wire⟩, s))
        else udpSendLoop kernel fuel (call + 1) false a n tooBig s
      | .noBuffers => .ok (some (⟨.ok, a, 0, tooBig, s.wire⟩, s))
      | .unreachable => .ok (some (⟨.unreachable, a, 0, tooBig, s.wire⟩, s))
      | .failure code => .ok (some (⟨.failure code, a, 0, tooBig, s.wire⟩, s))
      | .ok =>
        if retried then .ok (some (⟨.blocked, a, n, tooBig, s.wire⟩, s))
        else udpSendLoop kernel fuel (call + 1) true a n tooBig s

/-- `Endpoint::send_packets` on this socket. -/
def udpSendPackets (kernel : Nat → KernelCall) (a : Arrays ε) (n : Nat) (s : UdpSocket ε) :
    Except Fault (Option (SendResult ε × UdpSocket ε)) :=
  udpSendLoop kernel (2 * n + 2) 0 false a n 0 s

end Send

/-! ## One call -/

/-- The answer that decides: that to the send without GSO, unless there is a send with GSO and the
kernel takes it or fails for another reason than GSO. -/
def KernelCall.deciding (kernel : KernelCall) (gso : Bool) : KernelAnswer :=
  if gso then
    match kernel.gso with
    | .sent k => .sent k
    | .error errno =>
      if errno ≠ errIo ∧ errno ≠ errInval then .error errno else kernel.plain
  else kernel.plain

/-- The result of a send of `n` packets that is answered so, and how many were sent. -/
def KernelAnswer.outcome (n : Nat) : KernelAnswer → IoResult × Fin (n + 1)
  | .error errno => (IoResult.ofErrno errno, ⟨0, Nat.succ_pos n⟩)
  | .sent k => (.ok, ⟨min k n, Nat.lt_succ_of_le (Nat.min_le_right k n)⟩)

/-- GSO is given up if the kernel cannot do it at all, or cannot do it for packets that it does send
without. -/
def KernelCall.keepsGso (kernel : KernelCall) (n : Nat) : Bool :=
  match kernel.gso with
  | .sent _ => true
  | .error errno =>
    errno != errIo && !(errno == errInval && (kernel.plain.outcome n).2.val == n)

section Call

variable {a : Arrays ε} {pkts : List (Packet ε)}

/-- A batch as `send_packets` has it. -/
structure Batch (a : Arrays ε) (pkts : List (Packet ε)) : Prop where
  holds : a.Holds pkts
  length : pkts.length ≤ maxBatch
  size : ∀ p ∈ pkts, 0 < p.size ∧ p.size < 65536

theorem Batch.sizes_pos (h : Batch a pkts) : (a.size.take pkts.length).any (· == 0) = false := by
  have hsizes : a.size.take pkts.length = pkts.map Packet.size := by
    simpa using h.holds.size.read
  rw [hsizes, List.any_eq_false]
  intro n hn
  obtain ⟨p, hp, rfl⟩ := List.mem_map.mp hn
  have := h.size p hp
  simp only [beq_iff_eq]
  omega

variable [Inhabited ε]

theorem sendPlain_eq (h : Batch a pkts) (answer : KernelAnswer) (gsoError : Option Nat)
    (s : UdpSocket ε) :
    sendPlain answer gsoError a pkts.length s =
      let o := answer.outcome pkts.length
      .ok (o.1, o.2.val,
        { gso := s.gso &&
            !(gsoError == some errIo || gsoError == some errInval && o.2.val == pkts.length)
          wire := s.wire ++ pkts.take o.2 }) := by
  unfold sendPlain
  rw [h.sizes_pos, h.holds.read]
  cases answer with
  | error errno =>
    simp only [KernelAnswer.outcome]
    grind
  | sent k =>
    simp only [KernelAnswer.outcome]
    grind

variable [DecidableEq ε]

/-- A call sends the first packets of the batch, as many as the deciding answer says. -/
theorem udpSend_eq (h : Batch a pkts) (kernel : KernelCall) (s : UdpSocket ε) :
    udpSend kernel a pkts.length s =
      let o := (kernel.deciding s.gso).outcome pkts.length
      .ok (o.1, o.2.val,
        { gso := s.gso && kernel.keepsGso pkts.length, wire := s.wire ++ pkts.take o.2 }) := by
  obtain ⟨gso, wire⟩ := s
  unfold udpSend KernelCall.deciding KernelCall.keepsGso
  cases gso with
  | false =>
    rw [if_neg Bool.false_ne_true, if_neg Bool.false_ne_true, sendPlain_eq h]
    simp
  | true =>
    obtain ⟨msgs, hmsgs, hbatches⟩ := gsoMessages_spec h.holds h.length h.size
    rw [if_pos rfl, if_pos rfl, hmsgs, ok_bind]
    cases kernel.gso with
    | sent k =>
      have hcount : sentLoop (reported a.buf (min k pkts.length) msgs) false 0 =
          .ok (0 + min k pkts.length) :=
        hbatches.sentLoop_reported h.holds.buf (Nat.min_le_right ..) (by simp)
      simp [hcount, hbatches.segments h.holds.buf, ok_bind, KernelAnswer.outcome]
    | error errno =>
      dsimp only
      split_ifs with hother
      · simp [KernelAnswer.outcome, hother.1, hother.2]
      · simp [sendPlain_eq h, bne]

end Call

/-! ## A batch -/

section Loop

variable [Inhabited ε]

/-- The loop depends on the answers that are still to come. -/
theorem sendLoop_congr {send send' : (call n : Nat) → IoResult × Fin (n + 1)} {fuel call : Nat}
    (h : ∀ c n, call ≤ c → send c n = send' c n) (retried : Bool) (a : Arrays ε) (n tooBig : Nat)
    (wire : List (Packet ε)) :
    sendLoop send fuel call retried a n tooBig wire =
      sendLoop send' fuel call retried a n tooBig wire := by
  induction fuel generalizing call retried a n tooBig wire with
  | zero => rfl
  | succ fuel ih =>
    have hlater : ∀ c n, call + 1 ≤ c → send c n = send' c n := fun c n hc => h c n (by omega)
    unfold sendLoop
    simp only [h call n le_rfl, ih hlater]

variable {a : Arrays ε} {pkts : List (Packet ε)}

omit [Inhabited ε] in
theorem Batch.afterSend (h : Batch a pkts) {k : Nat} (hk : k ≤ pkts.length) :
    Batch (if 0 < k ∧ k < pkts.length then a.shiftUnsent k pkts.length else a) (pkts.drop k) where
  holds := h.holds.afterSend hk
  length := by
    rw [List.length_drop]
    exact (Nat.sub_le ..).trans h.length
  size p hp := h.size p (List.mem_of_mem_drop hp)

omit [Inhabited ε] in
theorem Batch.ne_nil (h : Batch a pkts) : ∀ p ∈ pkts, p.data ≠ [] := by
  intro p hp hnil
  have hpos := (h.size p hp).1
  rw [Packet.size, hnil] at hpos
  simp at hpos

theorem Batch.dropBig (h : Batch a pkts) (minSize : Nat) :
    ∃ b kept, a.dropPacketsFrom pkts.length minSize = (List.length kept, b) ∧ Batch b kept := by
  obtain ⟨hcount, hholds⟩ := Arrays.dropPacketsFrom_spec h.holds h.ne_nil minSize
  refine ⟨_, pkts.filter (·.size < minSize), Prod.ext hcount rfl, hholds, ?_, ?_⟩
  · exact (List.length_filter_le ..).trans h.length
  · exact fun p hp => h.size p (List.mem_of_mem_filter hp)

variable [DecidableEq ε]

/-- The kernel answers one of the two sends that a call makes. -/
def Answered (kernel : Nat → KernelCall) (answers : Nat → KernelAnswer) : Prop :=
  ∀ c, answers c = (kernel c).gso ∨ answers c = (kernel c).plain

omit [Inhabited ε] [DecidableEq ε] in
theorem KernelCall.deciding_eq (kernel : KernelCall) (gso : Bool) :
    kernel.deciding gso = kernel.gso ∨ kernel.deciding gso = kernel.plain := by
  unfold deciding
  cases gso with
  | false => exact .inr rfl
  | true =>
    rw [if_pos rfl]
    cases kernel.gso with
    | sent k => exact .inl rfl
    | error errno =>
      dsimp only
      split_ifs
      · exact .inl rfl
      · exact .inr rfl

/-- A run on this socket is one of `sendLoop`, with the answers that decide, and what the kernel has
sent is what that sends. Without GSO the answers are those to plain sends. -/
theorem udpSendLoop_refines (h : Batch a pkts) (kernel : Nat → KernelCall) (fuel call : Nat)
    (retried : Bool) (tooBig : Nat) (s : UdpSocket ε) :
    ∃ (answers : Nat → KernelAnswer) (gso : Bool), Answered kernel answers ∧
      (s.gso = false → gso = false ∧ ∀ c, call ≤ c → answers c = (kernel c).plain) ∧
      udpSendLoop kernel fuel call retried a pkts.length tooBig s =
        .ok ((sendLoop (fun c n => (answers c).outcome n) fuel call retried a pkts.length tooBig
          s.wire).map fun r => (r, ⟨gso, r.wire⟩)) := by
  induction fuel generalizing call retried a pkts tooBig s with
  | zero =>
    exact ⟨fun c => (kernel c).plain, s.gso, fun _ => .inr rfl,
      fun hoff => ⟨hoff, fun _ _ => rfl⟩, rfl⟩
  | succ fuel ih =>
    have hcall := udpSend_eq h (kernel call) s
    have hone := (kernel call).deciding_eq s.gso
    have hfirst : s.gso = false → (kernel call).deciding s.gso = (kernel call).plain := by
      intro hoff
      simp [KernelCall.deciding, hoff]
    have hgso : s.gso = false → (s.gso && (kernel call).keepsGso pkts.length) = false := by
      intro hoff
      simp [hoff]
    generalize (kernel call).deciding s.gso = first at hcall hfirst hone
    generalize (s.gso && (kernel call).keepsGso pkts.length) = gso at hcall hgso
    -- This answer, and then those of the rest of the loop.
    let followed (answers : Nat → KernelAnswer) (c : Nat) := if c = call then first else answers c
    have hnow : ∀ answers, followed answers call = first := fun _ => if_pos rfl
    have hlater : ∀ answers c, call + 1 ≤ c → followed answers c = answers c :=
      fun answers c hc => if_neg (by omega)
    suffices hrest : ∃ (answers : Nat → KernelAnswer) (gso' : Bool), Answered kernel answers ∧
        (gso = false → gso' = false ∧ ∀ c, call + 1 ≤ c → answers c = (kernel c).plain) ∧
        udpSendLoop kernel (fuel + 1) call retried a pkts.length tooBig s =
          .ok ((sendLoop (fun c n => (followed answers c).outcome n) (fuel + 1) call retried a
            pkts.length tooBig s.wire).map fun r => (r, ⟨gso', r.wire⟩)) by
      obtain ⟨answers, gso', hanswered, hplain, hrun⟩ := hrest
      refine ⟨followed answers, gso', fun c => ?_,
        fun hoff => ⟨(hplain (hgso hoff)).1, fun c hc => ?_⟩, hrun⟩
      · by_cases hc : c = call
        · rw [hc, hnow answers]
          exact hone
        · rw [show followed answers c = answers c from if_neg hc]
          exact hanswered c
      · obtain rfl | hlt := Nat.eq_or_lt_of_le hc
        · exact (hnow answers).trans (hfirst hoff)
        · exact (hlater answers c hlt).trans ((hplain (hgso hoff)).2 c hlt)
    have hall : Answered kernel fun c => (kernel c).plain := fun _ => .inr rfl
    have hdone : gso = false → gso = false ∧
        ∀ c, call + 1 ≤ c → (kernel c).plain = (kernel c).plain :=
      fun hoff => ⟨hoff, fun _ _ => rfl⟩
    have hk : (first.outcome pkts.length).2.val ≤ pkts.length :=
      Nat.le_of_lt_succ (first.outcome pkts.length).2.2
    have hbatch := h.afterSend hk
    have hlen : pkts.length - (first.outcome pkts.length).2.val =
        (pkts.drop (first.outcome pkts.length).2.val).length := List.length_drop.symm
    have hrest : ∀ answers, ∀ c n, call + 1 ≤ c →
        (followed answers c).outcome n = (answers c).outcome n :=
      fun answers c n hc => by rw [hlater answers c hc]
    unfold sendLoop udpSendLoop
    simp only [hcall, ok_bind, hnow, h.holds.read, hlen, sendLoop_congr (hrest _)]
    generalize (first.outcome pkts.length).1 = ret at *
    generalize (first.outcome pkts.length).2.val = k at *
    generalize (if 0 < k ∧ k < pkts.length then a.shiftUnsent k pkts.length else a) = b at *
    generalize pkts.drop k = rest at *
    generalize s.wire ++ pkts.take k = wire at *
    by_cases hnil : rest.length = 0
    · exact ⟨_, gso, hall, hdone, by simp only [if_pos hnil]; rfl⟩
    simp only [if_neg hnil]
    cases ret with
    | tooBig =>
      obtain ⟨b', kept, hdrop, hkept⟩ := hbatch.dropBig (b.size.getD 0 0)
      dsimp only
      simp only [hdrop]
      by_cases hnone : kept.length = 0
      · exact ⟨_, gso, hall, hdone, by simp only [if_pos hnone]; rfl⟩
      · simp only [if_neg hnone]
        exact ih hkept (call + 1) false
          (if tooBig = 0 then b.size.getD 0 0 else min tooBig (b.size.getD 0 0)) ⟨gso, wire⟩
    | ok =>
      cases retried with
      | true => exact ⟨_, gso, hall, hdone, rfl⟩
      | false => exact ih hbatch (call + 1) true tooBig ⟨gso, wire⟩
    | _ => exact ⟨_, gso, hall, hdone, rfl⟩

/-- A kernel that takes whole batches gets all packets at once. -/
theorem udpSendPackets_taken (h : Batch a pkts) {kernel : Nat → KernelCall}
    (htaken : kernel 0 = ⟨.sent maxBatch, .sent maxBatch⟩) (s : UdpSocket ε) :
    udpSendPackets kernel a pkts.length s =
      .ok (some (⟨.ok, a, 0, 0, s.wire ++ pkts⟩, { s with wire := s.wire ++ pkts })) := by
  have hdeciding : (kernel 0).deciding s.gso = .sent maxBatch := by
    rw [htaken, KernelCall.deciding]
    split_ifs <;> rfl
  have hkeeps : (kernel 0).keepsGso pkts.length = true := by
    rw [htaken]
    rfl
  have hall : min maxBatch pkts.length = pkts.length := Nat.min_eq_right h.length
  rw [udpSendPackets, udpSendLoop, udpSend_eq h, hdeciding, hkeeps]
  simp [KernelAnswer.outcome, hall]

/-- `send_packets` returns, whatever the kernel answers, and accounts for every packet. It has made
sends with these answers. -/
theorem udpSendPackets_accounts (h : Batch a pkts) (kernel : Nat → KernelCall)
    (s : UdpSocket ε) :
    ∃ r gso, ∃ answers : Nat → KernelAnswer,
      udpSendPackets kernel a pkts.length s = .ok (some (r, ⟨gso, r.wire⟩)) ∧
      sendLoop (fun c n => (answers c).outcome n) (2 * pkts.length + 2) 0 false a pkts.length 0
        s.wire = some r ∧
      Accounts 0 s.wire pkts
        ((Transport.socket fun c n => (answers c).outcome n).fates pkts) r ∧
      Answered kernel answers ∧
      (s.gso = false → gso = false ∧ ∀ c, answers c = (kernel c).plain) := by
  obtain ⟨answers, gso, hanswered, hgso, hrun⟩ :=
    udpSendLoop_refines h kernel (2 * pkts.length + 2) 0 false 0 s
  have hfuel : 2 * pkts.length + (if false then 0 else 1) < 2 * pkts.length + 2 := by simp
  obtain ⟨r, hr, haccounts⟩ := sendLoop_accounts (fun c n => (answers c).outcome n) 0 false
    0 s.wire h.holds h.ne_nil hfuel
  rw [hr] at hrun
  exact ⟨r, gso, answers, hrun, hr, haccounts, hanswered,
    fun hoff => ⟨(hgso hoff).1, fun c => (hgso hoff).2 c (Nat.zero_le c)⟩⟩

/-- `send_packets` on this socket sends, drops or keeps each packet of the batch, as the kernel's
answers say, and does nothing that it could not also do on a socket without GSO. -/
theorem udp_batch_accounted (h : Batch a pkts) (kernel : Nat → KernelCall) (s : UdpSocket ε) :
    ∃ r gso, ∃ answers : Nat → KernelAnswer, Answered kernel answers ∧
      udpSendPackets kernel a pkts.length s = .ok (some (r, ⟨gso, r.wire⟩)) ∧
      Accounts 0 s.wire pkts
        ((Transport.socket fun c n => (answers c).outcome n).fates pkts) r ∧
      (s.gso = false → gso = false) ∧
      ∃ plain, udpSendPackets plain a pkts.length ⟨false, s.wire⟩ =
        .ok (some (r, ⟨false, r.wire⟩)) := by
  obtain ⟨r, gso, answers, hrun, hloop, haccounts, hanswered, hgso⟩ :=
    udpSendPackets_accounts h kernel s
  refine ⟨r, gso, answers, hanswered, hrun, haccounts, fun hoff => (hgso hoff).1, ?_⟩
  -- The answers of this run, given to plain sends.
  obtain ⟨r', gso', answers', hrun', hloop', -, -, hgso'⟩ :=
    udpSendPackets_accounts h (fun c => ⟨.sent 0, answers c⟩) ⟨false, s.wire⟩
  obtain ⟨rfl, hanswers⟩ := hgso' rfl
  obtain rfl : answers' = answers := funext hanswers
  obtain rfl : r = r' := Option.some.inj (hloop.symm.trans hloop')
  exact ⟨_, hrun'⟩

/-- The kernel refuses GSO for three packets, and sends one of them at a time without. -/
theorem udp_batch_accounted_refused :
    let kernel : Nat → KernelCall := fun _ => ⟨.error errInval, .sent 1⟩
    let pkts : List (Packet Nat) := [⟨[1], 0⟩, ⟨[2, 3, 4, 5], 0⟩, ⟨[6], 0⟩]
    ∃ r gso, ∃ answers : Nat → KernelAnswer, Answered kernel answers ∧
      udpSendPackets kernel ⟨[1, 2, 3, 4, 5, 6], [1, 4, 1], [0, 0, 0]⟩ 3
        ⟨true, []⟩ = .ok (some (r, ⟨gso, r.wire⟩)) ∧
      Accounts 0 [] pkts ((Transport.socket fun c n => (answers c).outcome n).fates pkts) r := by
  intro kernel pkts
  have hholds : (⟨[1, 2, 3, 4, 5, 6], [1, 4, 1], [0, 0, 0]⟩ : Arrays Nat).Holds pkts :=
    ⟨by unfold At; decide, by unfold At; decide, by unfold At; decide⟩
  obtain ⟨r, gso, answers, hanswered, hrun, haccounts, -⟩ := udp_batch_accounted
    ⟨hholds, by decide, by decide⟩ kernel ⟨true, []⟩
  exact ⟨r, gso, answers, hanswered, hrun, haccounts⟩

end Loop

end Libquic
