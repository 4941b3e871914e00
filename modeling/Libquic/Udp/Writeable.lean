import Libquic.Udp.Send

/-!
# Waiting for the socket

A send that would block is tried again when the socket becomes writable. For the batch that the
connections share, `stall_send` leaves `resume_stalled_send` with the socket; for close packets and
other answers of the endpoint itself, `send_or_queue_packet` leaves a call of itself. The event of
the socket is added with each callback and is not persistent: when it fires, all callbacks that
are there are taken and called, and they may leave others.
-/
namespace Libquic

open Lib

/-- A callback of `when_writeable`. -/
inductive Parked (ε : Type) where
  /-- `resume_stalled_send` -/
  | resume
  /-- `send_or_queue_packet` -/
  | packet (p : Packet ε)
  deriving DecidableEq, Repr

structure SharedSocket (ε : Type) where
  udp : UdpSocket ε
  /-- `wev_` has been added and has not fired. -/
  armed : Bool := false
  writeableCallbacks : List (Parked ε) := []
  /-- The batch of the endpoint, and whether it is stalled. -/
  arrays : Arrays ε
  nPackets : Nat := 0
  stalled : Bool := false
  /-- The owner of the stalled packets is there and is not dead. -/
  owner : Bool := false
  /-- The packets of all batches that were sent by connections. -/
  handed : List (Packet ε) := []
  /-- The packets that were passed to `send_or_queue_packet`. -/
  asked : List (Packet ε) := []
  /-- For which of them the caller has been told a result. -/
  results : List (Packet ε × IoResult) := []

namespace SharedSocket

variable {ε : Type}

def whenWriteable (cb : Parked ε) (s : SharedSocket ε) : SharedSocket ε :=
  { s with writeableCallbacks := s.writeableCallbacks ++ [cb], armed := true }

def stallSend (s : SharedSocket ε) : Except Fault (SharedSocket ε) :=
  if s.stalled || s.nPackets = 0 then .error .assertion
  else .ok ({ s with stalled := true, owner := true }.whenWriteable .resume)

/-- The stall is over. -/
def clearStall (s : SharedSocket ε) : SharedSocket ε :=
  { s with nPackets := 0, stalled := false, owner := false }

/-- `forget_send_stall` for the owner, or its death -/
def forgetOwner (s : SharedSocket ε) : SharedSocket ε := { s with owner := false }

section Send

variable [DecidableEq ε] [Inhabited ε]

/-- `send_packets` on the socket. -/
def sendPackets (kernel : Nat → KernelCall) (a : Arrays ε) (n : Nat) (s : SharedSocket ε) :
    Except Fault (SendResult ε × SharedSocket ε) := do
  match ← udpSendPackets kernel a n s.udp with
  | none => .error .divergence
  | some (r, udp) => .ok (r, { s with udp := udp })

def sendOrQueuePacket (kernel : Nat → KernelCall) (p : Packet ε) (s : SharedSocket ε) :
    Except Fault (SharedSocket ε) := do
  let (r, s) ← s.sendPackets kernel ⟨p.data, [p.size], [p.ecn]⟩ 1
  if r.result = .blocked then .ok (s.whenWriteable (.packet p))
  else .ok { s with results := s.results ++ [(p, r.result)] }

/-- A connection sends the batch that it has filled. -/
def sendBatch (kernel : Nat → KernelCall) (a : Arrays ε) (n : Nat) (s : SharedSocket ε) :
    Except Fault (SharedSocket ε) := do
  let (r, s) ← s.sendPackets kernel a n
  let s := { s with arrays := r.arrays, nPackets := r.nPkts, handed := s.handed ++ a.read n }
  if r.result = .blocked then s.stallSend else .ok { s with nPackets := 0 }

def resumeStalledSend (kernel : Nat → KernelCall) (s : SharedSocket ε) :
    Except Fault (SharedSocket ε) :=
  if !s.stalled then .error .assertion
  else if s.owner then do
    let (r, s) ← s.sendPackets kernel s.arrays s.nPackets
    let s := { s with arrays := r.arrays, nPackets := r.nPkts }
    if r.result = .blocked then .ok (s.whenWriteable .resume) else .ok s.clearStall
  else .ok s.clearStall

def call (kernel : Nat → KernelCall) (s : SharedSocket ε) : Parked ε → Except Fault (SharedSocket ε)
  | .resume => s.resumeStalledSend kernel
  | .packet p => s.sendOrQueuePacket kernel p

/-- What the kernel answers to one callback, and whether what the callback does makes an end of the
owner. -/
structure Turn where
  kernel : Nat → KernelCall
  forget : Bool

/-- The loop over the callbacks. -/
def callLoop (turns : Nat → Turn) : Nat → List (Parked ε) → SharedSocket ε →
    Except Fault (SharedSocket ε)
  | _, [], s => .ok s
  | i, cb :: rest, s => do
    let s ← s.call (turns i).kernel cb
    callLoop turns (i + 1) rest (if (turns i).forget then s.forgetOwner else s)

/-- The event of the socket fires. -/
def writeable (turns : Nat → Turn) (s : SharedSocket ε) : Except Fault (SharedSocket ε) :=
  callLoop turns 0 s.writeableCallbacks { s with writeableCallbacks := [], armed := false }

end Send

/-! ## Runs -/

inductive Op (ε : Type) where
  | sendOrQueuePacket (kernel : Nat → KernelCall) (p : Packet ε)
  | sendBatch (kernel : Nat → KernelCall) (a : Arrays ε) (n : Nat)
  | forgetOwner
  | writeable (turns : Nat → Turn)

/-- Connections do not send while the batch is stalled. -/
def Enabled (s : SharedSocket ε) : Op ε → Prop
  | .sendOrQueuePacket _ p => 0 < p.size ∧ p.size < 65536
  | .sendBatch _ a n => s.stalled = false ∧ ∃ pkts, Batch a pkts ∧ pkts.length = n
  | .forgetOwner => True
  | .writeable _ => s.armed = true

variable [DecidableEq ε] [Inhabited ε]

def step (s : SharedSocket ε) : Op ε → Except Fault (SharedSocket ε)
  | .sendOrQueuePacket kernel p => { s with asked := s.asked ++ [p] }.sendOrQueuePacket kernel p
  | .sendBatch kernel a n => s.sendBatch kernel a n
  | .forgetOwner => .ok s.forgetOwner
  | .writeable turns => s.writeable turns

def machine (ε : Type) [DecidableEq ε] [Inhabited ε] : Machine (SharedSocket ε) (Op ε) Fault where
  initial s := s.armed = false ∧ s.writeableCallbacks = [] ∧ s.stalled = false ∧ s.udp.wire = [] ∧
    s.handed = [] ∧ s.asked = [] ∧ s.results = []
  enabled := Enabled
  step := step

/-! ## One send -/

variable {a : Arrays ε} {pkts : List (Packet ε)} {rest : List (Parked ε)} {s : SharedSocket ε}

omit [DecidableEq ε] [Inhabited ε] in
theorem subperm_withFate (fates : List (Packet ε × Fate)) :
    (withFate .sent fates ++ withFate .kept fates).Subperm (fates.map Prod.fst) := by
  induction fates with
  | nil => exact List.Subperm.refl []
  | cons entry fates ih =>
    obtain ⟨p, f⟩ := entry
    simp only [withFate_cons, List.map_cons]
    cases f with
    | sent => exact (List.subperm_cons p).mpr ih
    | kept => exact List.perm_middle.subperm.trans ((List.subperm_cons p).mpr ih)
    | tooBig => exact ih.trans (List.sublist_cons_self ..).subperm
    | lost => exact ih.trans (List.sublist_cons_self ..).subperm

/-- Some packets are sent, and some are kept in the arrays if the send is blocked. -/
theorem sendPackets_spec (h : Batch a pkts) (kernel : Nat → KernelCall) (s : SharedSocket ε) :
    ∃ r gso sent kept, s.sendPackets kernel a pkts.length =
        .ok (r, { s with udp := ⟨gso, s.udp.wire ++ sent⟩ }) ∧
      Batch r.arrays kept ∧ r.nPkts = kept.length ∧ (r.result = .blocked ↔ kept ≠ []) ∧
      (sent ++ kept).Subperm pkts := by
  obtain ⟨r, gso, answers, hrun, -, haccounts, -⟩ := udpSendPackets_accounts h kernel s.udp
  generalize Transport.fates pkts (.socket fun c n => (answers c).outcome n) = fates at haccounts
  have hsub : withFate .kept fates ⊆ pkts := haccounts.each ▸ withFate_subset .kept fates
  refine ⟨r, gso, withFate .sent fates, withFate .kept fates, ?_, ⟨haccounts.holds, ?_, ?_⟩,
    haccounts.left, haccounts.blocked, haccounts.each ▸ subperm_withFate fates⟩
  · rw [sendPackets, hrun, haccounts.wire]
    rfl
  · exact (haccounts.each ▸ length_withFate_le .kept fates).trans h.length
  · exact fun p hp => h.size p (hsub hp)

omit [DecidableEq ε] [Inhabited ε] in
theorem batch_single {p : Packet ε} (h : 0 < p.size ∧ p.size < 65536) :
    Batch ⟨p.data, [p.size], [p.ecn]⟩ [p] where
  holds := ⟨by simp [Memory.At], by simp [Memory.At], by simp [Memory.At]⟩
  length := by simp [maxBatch]
  size q hq := List.mem_singleton.mp hq ▸ h

/-! ## The invariant -/

/-- The packets of the stalled batch. -/
def held (s : SharedSocket ε) : List (Packet ε) :=
  if s.stalled then s.arrays.read s.nPackets else []

/-- While the event is handled, `rest` are the callbacks that are still to be called. -/
structure Inv (rest : List (Parked ε)) (s : SharedSocket ε) : Prop where
  armed : s.armed = true ↔ s.writeableCallbacks ≠ []
  resumes : (s.writeableCallbacks ++ rest).count .resume = if s.stalled then 1 else 0
  batch : s.stalled = true → ∃ pkts, Batch s.arrays pkts ∧ s.nPackets = pkts.length
  size : ∀ p, .packet p ∈ s.writeableCallbacks ++ rest → 0 < p.size ∧ p.size < 65536
  told : ∀ p, (s.writeableCallbacks ++ rest).count (.packet p) +
    (s.results.map Prod.fst).count p = s.asked.count p
  once : ∀ p, s.udp.wire.count p + (s.writeableCallbacks ++ rest).count (.packet p) +
    s.held.count p ≤ s.asked.count p + s.handed.count p

theorem Inv.whenWriteable {cb : Parked ε} (h : s.Inv (cb :: rest)) :
    (s.whenWriteable cb).Inv rest := by
  have hall : s.writeableCallbacks ++ [cb] ++ rest = s.writeableCallbacks ++ cb :: rest := by simp
  exact ⟨by simp [SharedSocket.whenWriteable], hall ▸ h.resumes, h.batch, hall ▸ h.size,
    hall ▸ h.told, hall ▸ h.once⟩

theorem Inv.forgetOwner (h : s.Inv rest) : s.forgetOwner.Inv rest :=
  ⟨h.armed, h.resumes, h.batch, h.size, h.told, h.once⟩

theorem Inv.forgetIf (h : s.Inv rest) (forget : Bool) :
    (if forget then s.forgetOwner else s).Inv rest := by
  split_ifs
  · exact h.forgetOwner
  · exact h

/-- The callbacks are taken. -/
theorem Inv.take (h : s.Inv []) :
    SharedSocket.Inv s.writeableCallbacks { s with writeableCallbacks := [], armed := false } := by
  have hall : s.writeableCallbacks ++ [] = [] ++ s.writeableCallbacks := by simp
  exact ⟨by simp, hall ▸ h.resumes, h.batch, hall ▸ h.size, hall ▸ h.told, hall ▸ h.once⟩

/-- A packet that is tried again waits again, or its caller is told. -/
theorem Inv.sendOrQueuePacket {p : Packet ε} (h : s.Inv (.packet p :: rest))
    (kernel : Nat → KernelCall) :
    ∃ t, s.sendOrQueuePacket kernel p = .ok t ∧ t.Inv rest := by
  obtain ⟨r, gso, sent, kept, hrun, -, -, hblocked, hsub⟩ :=
    sendPackets_spec (batch_single (h.size p (by simp))) kernel s
  rw [SharedSocket.sendOrQueuePacket, show 1 = [p].length from rfl, hrun]
  dsimp only [ok_bind]
  split_ifs with hb
  · -- the packet was kept, so it was not sent
    obtain rfl : sent = [] := by
      have hlen := hsub.length_le
      have hkept := List.length_pos_of_ne_nil (hblocked.mp hb)
      rw [List.length_append, List.length_singleton] at hlen
      exact List.length_eq_zero_iff.mp (by omega)
    rw [List.append_nil]
    exact ⟨_, rfl, Inv.whenWriteable ⟨h.armed, h.resumes, h.batch, h.size, h.told, h.once⟩⟩
  · refine ⟨_, rfl, h.armed, ?_, h.batch, fun q hq => h.size q (by grind), ?_, ?_⟩
    · have hresumes := h.resumes
      simpa using hresumes
    · intro q
      have htold := h.told q
      simp only [List.count_append, List.count_cons, List.map_append, List.map_cons, List.map_nil,
        List.count_nil, beq_iff_eq, Parked.packet.injEq] at htold ⊢
      omega
    · intro q
      have honce := h.once q
      have hq := hsub.count_le q
      simp only [List.count_append, List.count_cons, List.count_nil, beq_iff_eq,
        Parked.packet.injEq, held] at honce hq ⊢
      omega

theorem Inv.stalled_of_resume (h : s.Inv (.resume :: rest)) : s.stalled = true := by
  have hresumes := h.resumes
  by_contra hclear
  simp [hclear] at hresumes

theorem Inv.clearStall (h : s.Inv (.resume :: rest)) : s.clearStall.Inv rest := by
  have hothers (q : Packet ε) : (s.writeableCallbacks ++ .resume :: rest).count (.packet q) =
      (s.writeableCallbacks ++ rest).count (.packet q) := by simp
  have hmem (q : Packet ε) (hq : .packet q ∈ s.writeableCallbacks ++ rest) :
      .packet q ∈ s.writeableCallbacks ++ .resume :: rest := by grind
  refine ⟨h.armed, ?_, ?_, fun q hq => h.size q (hmem q hq), fun q => hothers q ▸ h.told q,
    fun q => ?_⟩
  · have hresumes := h.resumes
    simp only [h.stalled_of_resume, if_true, List.count_append, List.count_cons_self] at hresumes
    simp only [SharedSocket.clearStall, List.count_append, Bool.false_eq_true, if_false]
    omega
  · simp [SharedSocket.clearStall]
  · have honce := h.once q
    rw [hothers] at honce
    simp only [SharedSocket.clearStall, held, Bool.false_eq_true, if_false, List.count_nil]
    omega

/-- The stalled packets are sent, or kept for another time, or given up. -/
theorem Inv.resumeStalledSend (h : s.Inv (.resume :: rest)) (kernel : Nat → KernelCall) :
    ∃ t, s.resumeStalledSend kernel = .ok t ∧ t.Inv rest := by
  have hstalled := h.stalled_of_resume
  obtain ⟨pkts, hbatch, hlen⟩ := h.batch hstalled
  have hheld : s.held = pkts := by rw [held, if_pos hstalled, hlen, hbatch.holds.read]
  unfold SharedSocket.resumeStalledSend
  rw [if_neg (by simp [hstalled])]
  split_ifs with howner
  · obtain ⟨r, gso, sent, kept, hrun, hkept, hn, -, hsub⟩ := sendPackets_spec hbatch kernel s
    have hsent : SharedSocket.Inv (.resume :: rest) { s with
        udp := ⟨gso, s.udp.wire ++ sent⟩, arrays := r.arrays, nPackets := r.nPkts } := by
      refine ⟨h.armed, h.resumes, fun _ => ⟨kept, hkept, hn⟩, h.size, h.told, fun q => ?_⟩
      have honce := h.once q
      have hq := hsub.count_le q
      rw [hheld] at honce
      rw [held, if_pos hstalled, hn, hkept.holds.read]
      simp only [List.count_append] at honce hq ⊢
      omega
    rw [hlen, hrun]
    dsimp only [ok_bind]
    split_ifs
    · exact ⟨_, rfl, hsent.whenWriteable⟩
    · exact ⟨_, rfl, hsent.clearStall⟩
  · exact ⟨_, rfl, h.clearStall⟩

theorem Inv.call {cb : Parked ε} (h : s.Inv (cb :: rest)) (kernel : Nat → KernelCall) :
    ∃ t, s.call kernel cb = .ok t ∧ t.Inv rest := by
  cases cb with
  | resume => exact h.resumeStalledSend kernel
  | packet p => exact h.sendOrQueuePacket kernel

theorem Inv.callLoop (turns : Nat → Turn) (i : Nat) (h : s.Inv rest) :
    ∃ t, callLoop turns i rest s = .ok t ∧ t.Inv [] := by
  induction rest generalizing i s with
  | nil => exact ⟨s, rfl, h⟩
  | cons cb rest ih =>
    obtain ⟨t, ht, hinv⟩ := h.call (turns i).kernel
    obtain ⟨u, hu, hfinal⟩ := ih (i + 1) (hinv.forgetIf (turns i).forget)
    refine ⟨u, ?_, hfinal⟩
    rw [SharedSocket.callLoop, ht]
    exact hu

theorem Inv.writeable (turns : Nat → Turn) (h : s.Inv []) :
    ∃ t, s.writeable turns = .ok t ∧ t.Inv [] :=
  h.take.callLoop turns 0

/-- A batch is sent while none is stalled. -/
theorem Inv.sendBatch (h : s.Inv []) (hclear : s.stalled = false) (hbatch : Batch a pkts)
    (kernel : Nat → KernelCall) : ∃ t, s.sendBatch kernel a pkts.length = .ok t ∧ t.Inv [] := by
  obtain ⟨r, gso, sent, kept, hrun, hkept, hn, hblocked, hsub⟩ := sendPackets_spec hbatch kernel s
  have honce (q : Packet ε) : (s.udp.wire ++ sent).count q +
      (s.writeableCallbacks ++ []).count (Parked.packet q) + kept.count q ≤
        s.asked.count q + (s.handed ++ pkts).count q := by
    have honce := h.once q
    have hq := hsub.count_le q
    simp only [List.count_append] at honce hq ⊢
    omega
  rw [SharedSocket.sendBatch, hrun, hbatch.holds.read]
  dsimp only [ok_bind]
  split_ifs with hb
  · have hne := hblocked.mp hb
    rw [stallSend, if_neg (by simp [hclear, hn, hne])]
    refine ⟨_, rfl, Inv.whenWriteable ⟨h.armed, ?_, fun _ => ⟨kept, hkept, hn⟩, ?_, ?_, ?_⟩⟩
    · have hresumes := h.resumes
      simpa [hclear] using hresumes
    · exact fun q hq => h.size q (by simpa using hq)
    · intro q
      simpa using h.told q
    · intro q
      have hq := honce q
      simp only [held, if_true, hn, hkept.holds.read, List.count_append, List.count_cons_of_ne,
        ne_eq, reduceCtorEq, not_false_eq_true] at hq ⊢
      exact hq
  · refine ⟨_, rfl, h.armed, h.resumes, ?_, h.size, h.told, fun q => ?_⟩
    · exact fun hs => absurd (hclear.symm.trans hs) Bool.false_ne_true
    · have hq := honce q
      simp only [held, hclear, Bool.false_eq_true, if_false, List.count_nil]
      omega

/-- Another packet is to be sent. -/
theorem Inv.ask {p : Packet ε} (h : s.Inv []) (hp : 0 < p.size ∧ p.size < 65536) :
    SharedSocket.Inv [.packet p] { s with asked := s.asked ++ [p] } := by
  refine ⟨h.armed, ?_, h.batch, fun q hq => ?_, fun q => ?_, fun q => ?_⟩
  · have hresumes := h.resumes
    simpa using hresumes
  · rcases List.mem_append.mp hq with hold | hnew
    · exact h.size q (List.mem_append_left _ hold)
    · obtain rfl : q = p := by simpa using hnew
      exact hp
  · have htold := h.told q
    simp only [List.count_append, List.count_cons, List.count_nil, beq_iff_eq,
      Parked.packet.injEq] at htold ⊢
    omega
  · have honce := h.once q
    simp only [List.count_append, List.count_cons, List.count_nil, beq_iff_eq,
      Parked.packet.injEq, held] at honce ⊢
    omega

theorem inductive_inv : (machine ε).Inductive (Inv []) where
  initial s h := by
    obtain ⟨harmed, hcallbacks, hstalled, hwire, hhanded, hasked, hresults⟩ := h
    exact ⟨by simp [harmed, hcallbacks], by simp [hcallbacks, hstalled], by simp [hstalled],
      by simp [hcallbacks], by simp [hcallbacks, hasked, hresults],
      by simp [hwire, hcallbacks, held, hstalled, hasked, hhanded]⟩
  step s op h he := by
    cases op with
    | sendOrQueuePacket kernel p =>
      exact (h.ask he).sendOrQueuePacket kernel
    | sendBatch kernel a n =>
      obtain ⟨hclear, pkts, hbatch, rfl⟩ := he
      exact h.sendBatch hclear hbatch kernel
    | forgetOwner => exact ⟨_, rfl, h.forgetOwner⟩
    | writeable turns => exact h.writeable turns

/-- A batch and then a single packet, while the kernel takes nothing. -/
def blocked : SharedSocket Nat where
  udp := ⟨true, []⟩
  armed := true
  writeableCallbacks := [.resume, .packet ⟨[2, 3], 0⟩]
  arrays := ⟨[1], [1], [0]⟩
  nPackets := 1
  stalled := true
  owner := true
  handed := [⟨[1], 0⟩]
  asked := [⟨[2, 3], 0⟩]

theorem reachable_blocked : (machine Nat).Reachable blocked := by
  let full : Nat → KernelCall := fun _ => ⟨.error errAgain, .error errAgain⟩
  have hbatch : Batch (⟨[1], [1], [0]⟩ : Arrays Nat) [⟨[1], 0⟩] :=
    batch_single (p := ⟨[1], 0⟩) (by decide)
  have hstart : (machine Nat).Reachable { udp := ⟨true, []⟩, arrays := ⟨[], [], []⟩ } :=
    .initial (by simp [machine])
  have hready : (machine Nat).enabled { udp := ⟨true, []⟩, arrays := ⟨[], [], []⟩ }
      (.sendBatch full ⟨[1], [1], [0]⟩ 1) := by
    exact ⟨rfl, [⟨[1], 0⟩], hbatch, rfl⟩
  have hstalled : (machine Nat).Reachable
      { blocked with writeableCallbacks := [.resume], asked := [] } :=
    hstart.step hready rfl
  have hsize : 0 < (⟨[2, 3], 0⟩ : Packet Nat).size ∧ (⟨[2, 3], 0⟩ : Packet Nat).size < 65536 := by
    decide
  exact hstalled.step (i := .sendOrQueuePacket full ⟨[2, 3], 0⟩) hsize rfl

/-- Nothing that waits for the socket is forgotten: its event is there whenever a callback is, the
stalled batch has one callback, which is called only while there is a stall, and no assertion
fails. -/
theorem stall_wakes (h : (machine ε).Reachable s) :
    (∀ op, s.Enabled op → ∃ t, s.step op = .ok t) ∧
      (s.armed = true ↔ s.writeableCallbacks ≠ []) ∧
      s.writeableCallbacks.count .resume = if s.stalled then 1 else 0 := by
  have hinv := inductive_inv.reachable h
  refine ⟨fun op he => inductive_inv.progress h he, hinv.armed, ?_⟩
  have hresumes := hinv.resumes
  rwa [List.append_nil] at hresumes

theorem stall_wakes_blocked :
    blocked.armed = true ∧ blocked.writeableCallbacks.count .resume = 1 := by
  obtain ⟨-, harmed, hresumes⟩ := stall_wakes reachable_blocked
  exact ⟨harmed.mpr (by simp [blocked]), hresumes⟩

/-- The caller of `send_or_queue_packet` is told once about a packet, when it waits no more. A
packet is sent at most once, and one that waits has not been sent. -/
theorem packets_sent_once (h : (machine ε).Reachable s) (p : Packet ε) :
    s.writeableCallbacks.count (.packet p) + (s.results.map Prod.fst).count p = s.asked.count p ∧
      s.udp.wire.count p + s.writeableCallbacks.count (.packet p) + s.held.count p ≤
        s.asked.count p + s.handed.count p := by
  have hinv := inductive_inv.reachable h
  have htold := hinv.told p
  have honce := hinv.once p
  rw [List.append_nil] at htold honce
  exact ⟨htold, honce⟩

theorem packets_sent_once_blocked :
    blocked.udp.wire.count ⟨[2, 3], 0⟩ + blocked.writeableCallbacks.count (.packet ⟨[2, 3], 0⟩) +
      blocked.held.count ⟨[2, 3], 0⟩ ≤
        blocked.asked.count ⟨[2, 3], 0⟩ + blocked.handed.count ⟨[2, 3], 0⟩ :=
  (packets_sent_once reachable_blocked ⟨[2, 3], 0⟩).2

/-! ## A socket that is free again -/

theorem sendPackets_taken (h : Batch a pkts) {kernel : Nat → KernelCall}
    (htaken : kernel 0 = ⟨.sent maxBatch, .sent maxBatch⟩) (s : SharedSocket ε) :
    s.sendPackets kernel a pkts.length = .ok (⟨.ok, a, 0, 0, s.udp.wire ++ pkts⟩,
      { s with udp := { s.udp with wire := s.udp.wire ++ pkts } }) := by
  rw [sendPackets, udpSendPackets_taken h htaken]
  rfl

/-- A callback that can send leaves no other. -/
theorem Inv.call_taken {cb : Parked ε} (h : s.Inv (cb :: rest)) {kernel : Nat → KernelCall}
    (htaken : kernel 0 = ⟨.sent maxBatch, .sent maxBatch⟩) :
    ∃ t, s.call kernel cb = .ok t ∧ t.Inv rest ∧
      t.writeableCallbacks = s.writeableCallbacks := by
  obtain ⟨t, ht, hinv⟩ := h.call kernel
  refine ⟨t, ht, hinv, ?_⟩
  cases cb with
  | packet p =>
    have hbatch := batch_single (h.size p (by simp))
    rw [SharedSocket.call, SharedSocket.sendOrQueuePacket, show 1 = [p].length from rfl,
      sendPackets_taken hbatch htaken] at ht
    cases ht
    rfl
  | resume =>
    have hstalled := h.stalled_of_resume
    obtain ⟨pkts, hbatch, hlen⟩ := h.batch hstalled
    rw [SharedSocket.call, SharedSocket.resumeStalledSend, if_neg (by simp [hstalled]), hlen,
      sendPackets_taken hbatch htaken] at ht
    split_ifs at ht
    · cases ht
      rfl
    · cases ht
      rfl

theorem Inv.callLoop_taken {turns : Nat → Turn} (i : Nat) (h : s.Inv rest)
    (htaken : ∀ i, (turns i).kernel 0 = ⟨.sent maxBatch, .sent maxBatch⟩) :
    ∃ t, SharedSocket.callLoop turns i rest s = .ok t ∧ t.Inv [] ∧
      t.writeableCallbacks = s.writeableCallbacks := by
  induction rest generalizing i s with
  | nil => exact ⟨s, rfl, h, rfl⟩
  | cons cb rest ih =>
    obtain ⟨t, ht, hinv, hsame⟩ := h.call_taken (htaken i)
    obtain ⟨u, hu, hfinal, hcallbacks⟩ := ih (i + 1) (hinv.forgetIf (turns i).forget)
    refine ⟨u, ?_, hfinal, ?_⟩
    · rw [SharedSocket.callLoop, ht]
      exact hu
    · rw [hcallbacks, ← hsame]
      split_ifs <;> rfl

/-- One event is enough for a socket that takes what it is given: afterwards there is no stall, no
packet waits, and the callers have been told about all of them. -/
theorem writeable_settles (h : (machine ε).Reachable s) {turns : Nat → Turn}
    (htaken : ∀ i, (turns i).kernel 0 = ⟨.sent maxBatch, .sent maxBatch⟩) :
    ∃ t, s.writeable turns = .ok t ∧ t.stalled = false ∧ t.writeableCallbacks = [] ∧
      ∀ p, (t.results.map Prod.fst).count p = t.asked.count p := by
  obtain ⟨t, ht, hinv, hnone⟩ := (inductive_inv.reachable h).take.callLoop_taken 0 htaken
  refine ⟨t, ht, ?_, hnone, fun p => ?_⟩
  · have hresumes := hinv.resumes
    rw [hnone] at hresumes
    by_contra hstalled
    simp [hstalled] at hresumes
  · have htold := hinv.told p
    rwa [hnone, List.append_nil, List.count_nil, Nat.zero_add] at htold

theorem writeable_settles_blocked :
    ∃ t, blocked.writeable (fun _ => ⟨fun _ => ⟨.sent maxBatch, .sent maxBatch⟩, false⟩) = .ok t ∧
      t.stalled = false ∧ t.writeableCallbacks = [] := by
  obtain ⟨t, ht, hstalled, hnone, -⟩ := writeable_settles reachable_blocked
    fun (_ : Nat) => show (Turn.mk (fun _ => ⟨.sent maxBatch, .sent maxBatch⟩) false).kernel 0 = _
      from rfl
  exact ⟨t, ht, hstalled, hnone⟩

end SharedSocket

end Libquic
