import Libquic.Udp.Send

/-!
# Receiving

When the socket is readable, `UDPSocket::receive` reads datagrams into its slots, as many as there
are for each call of `recvmmsg`, and hands the packets in them to the callback. It goes on until a
call leaves a slot empty or enough packets have been counted. What is left stays in the kernel's
queue, and the event comes again for as long as there is something.

The kernel is a specification: its queue is in order, and a call takes one datagram at least, if
there is one, and no more than there are slots. Datagrams may arrive before each call.
-/
namespace Libquic

open Lib Lib.Pieces

variable {ε : Type}

/-- `MAX_RECEIVE_PER_LOOP` -/
def maxReceivePerLoop : Nat := 64

/-- `GRO_SLOTS` -/
def groSlots : Nat := 8

/-- `EINTR` -/
def errIntr : Nat := 4

/-- A slot with what the kernel has written into it. -/
structure RecvSlot (ε : Type) where
  data : Bytes
  hdr : MsgHdr ε

/-- The answer to `recvmmsg`: `errno`, or how many datagrams the kernel is ready to give. -/
inductive RecvAnswer where
  | error (errno : Nat)
  | read (limit : Nat)
  deriving DecidableEq, Repr

/-- A call of `recvmmsg`, and what has arrived by then. -/
structure RecvCall (ε : Type) where
  arrivals : List (RecvSlot ε) := []
  answer : RecvAnswer

structure ReceiveSocket (ε : Type) where
  gro : Bool
  /-- What the kernel has for the socket. -/
  queue : List (RecvSlot ε) := []
  /-- All that the kernel has had for it. -/
  arrived : List (RecvSlot ε) := []
  /-- The packets that `receive_callback_` was called with. -/
  delivered : List (Packet ε) := []

namespace ReceiveSocket

def slots (s : ReceiveSocket ε) : Nat := if s.gro then groSlots else maxReceivePerLoop

def arrive (slots : List (RecvSlot ε)) (s : ReceiveSocket ε) : ReceiveSocket ε :=
  { s with queue := s.queue ++ slots, arrived := s.arrived ++ slots }

/-- The packets of some slots. -/
def packets (gro : Bool) (slots : List (RecvSlot ε)) : List (Packet ε) :=
  slots.flatMap fun r => (processReceived gro r.data r.hdr).1

/-- What `process_received` counts for some slots. -/
def counted (gro : Bool) (slots : List (RecvSlot ε)) : Nat :=
  (slots.map fun r => (processReceived gro r.data r.hdr).2).sum

/-- How many slots a call fills, `nread`. -/
def nread (limit : Nat) (s : ReceiveSocket ε) : Nat :=
  min (min (max 1 limit) s.slots) s.queue.length

/-- The first `n` datagrams are read and processed. -/
def readSlots (n : Nat) (s : ReceiveSocket ε) : ReceiveSocket ε :=
  { s with queue := s.queue.drop n, delivered := s.delivered ++ packets s.gro (s.queue.take n) }

/-- The loops of `receive`. There is no result if it takes more calls than `fuel`. -/
def receiveLoop (calls : Nat → RecvCall ε) :
    (fuel c count : Nat) → ReceiveSocket ε → Option (IoResult × ReceiveSocket ε)
  | 0, _, _, _ => none
  | fuel + 1, c, count, s =>
    let s := s.arrive (calls c).arrivals
    match (calls c).answer with
    | .error errno =>
      if errno = errIntr then receiveLoop calls fuel (c + 1) count s
      else if errno = errAgain then some (.ok, s)
      else some (.ofErrno errno, s)
    | .read limit =>
      -- `EAGAIN`
      if s.queue = [] then some (.ok, s)
      else
        let n := s.nread limit
        let count := count + counted s.gro (s.queue.take n)
        let t := s.readSlots n
        if n < s.slots then some (.ok, t)
        else if count < maxReceivePerLoop then receiveLoop calls fuel (c + 1) count t
        else some (.ok, t)

def receive (calls : Nat → RecvCall ε) (fuel : Nat) (s : ReceiveSocket ε) :
    Option (IoResult × ReceiveSocket ε) :=
  receiveLoop calls fuel 0 0 s

inductive Event (ε : Type) where
  | arrive (slots : List (RecvSlot ε))
  /-- The socket is readable. -/
  | readable (calls : Nat → RecvCall ε) (fuel : Nat)

/-- Nothing is said of an event that does not end. -/
def step (s : ReceiveSocket ε) : Event ε → Except Unit (ReceiveSocket ε)
  | .arrive slots => .ok (s.arrive slots)
  | .readable calls fuel =>
    match s.receive calls fuel with
    | none => .error ()
    | some (_, t) => .ok t

def machine (ε : Type) (gro : Bool) : Machine (ReceiveSocket ε) (Event ε) Unit where
  initial s := s = { gro }
  enabled _ _ := True
  step := step

/-! ## What is delivered -/

variable {s t : ReceiveSocket ε} {calls : Nat → RecvCall ε} {gro : Bool}

/-- What has arrived has been processed in order, or is in the queue. -/
def Conserved (s : ReceiveSocket ε) : Prop :=
  ∃ consumed, s.arrived = consumed ++ s.queue ∧ s.delivered = packets s.gro consumed

theorem packets_append (xs ys : List (RecvSlot ε)) :
    packets gro (xs ++ ys) = packets gro xs ++ packets gro ys := by
  simp [packets]

theorem Conserved.arrive (h : s.Conserved) (slots : List (RecvSlot ε)) :
    (s.arrive slots).Conserved := by
  obtain ⟨consumed, harrived, hdelivered⟩ := h
  exact ⟨consumed, by simp [ReceiveSocket.arrive, harrived], hdelivered⟩

theorem Conserved.readSlots (h : s.Conserved) (n : Nat) : (s.readSlots n).Conserved := by
  obtain ⟨consumed, harrived, hdelivered⟩ := h
  refine ⟨consumed ++ s.queue.take n, ?_, ?_⟩
  · simp [ReceiveSocket.readSlots, harrived]
  · simp [ReceiveSocket.readSlots, hdelivered, packets_append]

/-- What arrivals and reads keep, the loop keeps. -/
theorem receiveLoop_keep {P : ReceiveSocket ε → Prop} {fuel c count : Nat} {r : IoResult}
    (harrive : ∀ s slots, P s → P (s.arrive slots)) (hread : ∀ s n, P s → P (s.readSlots n))
    (hs : P s) (h : receiveLoop calls fuel c count s = some (r, t)) : P t := by
  induction fuel generalizing c count s with
  | zero => cases h
  | succ fuel ih =>
    have harrived := harrive s (calls c).arrivals hs
    unfold receiveLoop at h
    dsimp only at h
    split at h
    next errno _ =>
      split_ifs at h
      · exact ih harrived h
      · cases h; exact harrived
      · cases h; exact harrived
    next limit _ =>
      split_ifs at h
      · cases h; exact harrived
      · cases h; exact hread _ _ harrived
      · exact ih (hread _ _ harrived) h
      · cases h; exact hread _ _ harrived

theorem reachable_conserved (h : (machine ε gro).Reachable s) : s.gro = gro ∧ s.Conserved := by
  refine Machine.Reachable.keep (P := fun s => s.gro = gro ∧ s.Conserved) (fun s hs => ?_)
    (fun s event t hs _ ht => ?_) h
  · cases hs
    exact ⟨rfl, [], rfl, rfl⟩
  · cases event with
    | arrive slots =>
      cases ht
      exact ⟨hs.1, hs.2.arrive slots⟩
    | readable calls fuel =>
      simp only [machine, step] at ht
      split at ht
      next => cases ht
      next r t' hloop =>
        cases ht
        exact receiveLoop_keep (P := fun s => s.gro = gro ∧ s.Conserved)
          (fun s slots h => ⟨h.1, h.2.arrive slots⟩) (fun s n h => ⟨h.1, h.2.readSlots n⟩) hs hloop

/-- The packets that a datagram was made of. The kernel merges packets of one size and a last one
that may be shorter, if GRO is on. A datagram that is empty or did not fit has none. -/
inductive Carries (gro : Bool) (r : RecvSlot ε) : List (Packet ε) → Prop where
  | dropped : r.data = [] ∨ r.hdr.truncated = true → Carries gro r []
  | merged {size : Nat} {group : List (Packet ε)} :
      Uniform size (group.map Packet.data) → size < 2147483648 → r.hdr.truncated = false →
      r.data = (group.map Packet.data).flatten → (∀ p ∈ group, p.ecn = r.hdr.ecn) →
      (gro = true ∧ r.hdr.gro = [(size : Int)] ∨ r.hdr.gro = [] ∧ group.length = 1) →
      Carries gro r group

/-- The packets that came as these datagrams, in order. -/
inductive Carried (gro : Bool) : List (RecvSlot ε) → List (Packet ε) → Prop where
  | nil : Carried gro [] []
  | cons {r : RecvSlot ε} {group pkts : List (Packet ε)} {rs : List (RecvSlot ε)} :
      Carries gro r group → Carried gro rs pkts → Carried gro (r :: rs) (group ++ pkts)

theorem Carries.packets_eq {r : RecvSlot ε} {group : List (Packet ε)} (h : Carries gro r group) :
    (processReceived gro r.data r.hdr).1 = group := by
  cases h with
  | dropped h =>
    unfold processReceived
    rcases h with h | h
    · simp [h]
    · split_ifs <;> rfl
  | @merged size _ huniform hsize hwhole hdata hecn hgro =>
    cases gro with
    | true =>
      have hmerged : r.hdr.gro = [(size : Int)] ∨
          r.hdr.gro = [] ∧ (group.map Packet.data).length = 1 := by
        simpa using hgro
      rw [hdata, processReceived_merged huniform hsize hwhole hmerged, map_mk_data hecn]
    | false =>
      -- Without GRO there is one packet, whatever the control messages say.
      obtain ⟨-, hone⟩ : r.hdr.gro = [] ∧ group.length = 1 := by simpa using hgro
      obtain ⟨p, rfl⟩ := List.length_eq_one_iff.mp hone
      have hne := huniform.flatten_ne_nil
      have hp := hecn p (by simp)
      unfold processReceived
      simp only [hdata, List.map_cons, List.map_nil, List.flatten_cons, List.flatten_nil,
        List.append_nil, MsgHdr.segment, hwhole] at *
      simp [hne, ← hp]

theorem Carried.packets_eq {rs : List (RecvSlot ε)} {pkts : List (Packet ε)}
    (h : Carried gro rs pkts) : packets gro rs = pkts := by
  induction h with
  | nil => rfl
  | cons hr _ ih =>
    rw [← hr.packets_eq, ← ih]
    rfl

theorem Carried.split {xs ys : List (RecvSlot ε)} {pkts : List (Packet ε)}
    (h : Carried gro (xs ++ ys) pkts) :
    ∃ first rest, Carried gro xs first ∧ Carried gro ys rest ∧ pkts = first ++ rest := by
  induction xs generalizing pkts with
  | nil => exact ⟨[], pkts, .nil, h, rfl⟩
  | cons x xs ih =>
    cases h with
    | @cons _ group pkts' _ hx hrest =>
      obtain ⟨first, rest, hfirst, hlast, rfl⟩ := ih hrest
      exact ⟨group ++ first, rest, .cons hx hfirst, hlast, (List.append_assoc ..).symm⟩

/-- However the packets were merged on the way and however the reads fall, with errors and calls
that are interrupted, the callback has been called with the packets in order, each of them once, and
the others wait in the queue. -/
theorem received_as_sent (h : (machine ε gro).Reachable s) {pkts : List (Packet ε)}
    (hcarried : Carried gro s.arrived pkts) :
    ∃ waiting, Carried gro s.queue waiting ∧ s.delivered ++ waiting = pkts := by
  obtain ⟨hgro, consumed, harrived, hdelivered⟩ := reachable_conserved h
  rw [harrived] at hcarried
  obtain ⟨first, rest, hfirst, hrest, rfl⟩ := hcarried.split
  refine ⟨rest, hrest, ?_⟩
  rw [hdelivered, hgro, hfirst.packets_eq]

/-- Two packets in one datagram and one in the next, of which a call has read the first. -/
theorem received_as_sent_merged :
    ∃ s : ReceiveSocket Nat, (machine Nat true).Reachable s ∧
      s.delivered = [⟨[1, 2], 0⟩, ⟨[3], 0⟩] ∧
      ∃ waiting, Carried true s.queue waiting ∧
        s.delivered ++ waiting = [⟨[1, 2], 0⟩, ⟨[3], 0⟩, ⟨[4], 0⟩] := by
  let merged : RecvSlot Nat := ⟨[1, 2, 3], { ecn := 0, gro := [2] }⟩
  let single : RecvSlot Nat := ⟨[4], { ecn := 0 }⟩
  have hstart : (machine Nat true).Reachable { gro := true } := .initial rfl
  have harrived := hstart.step (i := .arrive [merged, single]) trivial rfl
  have hread := harrived.step (i := .readable (fun _ => ⟨[], .read 1⟩) 1) trivial rfl
  have hmerged : Carries true merged [⟨[1, 2], 0⟩, ⟨[3], 0⟩] :=
    .merged (.cons rfl (.last (by simp) (by simp))) (by decide) rfl rfl (by simp [merged])
      (.inl ⟨rfl, rfl⟩)
  have hsingle : Carries true single [⟨[4], 0⟩] :=
    .merged (.last (by simp) (le_refl 1)) (by decide) rfl rfl (by simp [single]) (.inr ⟨rfl, rfl⟩)
  have hcarried := Carried.cons hmerged (.cons hsingle .nil)
  exact ⟨_, hread, rfl, received_as_sent hread hcarried⟩

/-! ## How long an event takes -/

theorem cut_ne_nil (n : Nat) {data : Bytes} (h : data ≠ []) : cut n data ≠ [] := by
  obtain ⟨b, rest, rfl⟩ := List.exists_cons_of_ne_nil h
  simp [cut, cutLoop]

/-- The datagrams that a call can read are not empty. -/
def NonEmpty (slots : List (RecvSlot ε)) : Prop := ∀ r ∈ slots, r.data ≠ []

/-- Every datagram is counted, unless it is empty. -/
theorem length_le_counted (gro : Bool) {slots : List (RecvSlot ε)} (h : NonEmpty slots) :
    slots.length ≤ counted gro slots := by
  induction slots with
  | nil => exact Nat.zero_le _
  | cons r slots ih =>
    have hr : 1 ≤ (processReceived gro r.data r.hdr).2 := by
      have hdata := h r (by simp)
      have hpieces := List.length_pos_iff.mpr (cut_ne_nil (r.hdr.segment gro) hdata)
      unfold processReceived
      rw [if_neg (by simpa using hdata)]
      dsimp only
      split_ifs
      · exact le_rfl
      · exact le_rfl
      · exact hpieces
    have hslots := ih fun q hq => h q (by simp [hq])
    simp only [counted, List.map_cons, List.sum_cons, List.length_cons] at *
    omega

theorem nread_le (s : ReceiveSocket ε) (limit : Nat) :
    s.nread limit ≤ s.slots ∧ s.nread limit ≤ s.queue.length := by
  unfold nread
  omega

theorem nread_pos (limit : Nat) (h : s.queue ≠ []) : 1 ≤ s.nread limit := by
  have hqueue := List.length_pos_iff.mpr h
  unfold nread slots groSlots maxReceivePerLoop
  split_ifs <;> omega

theorem receiveLoop_ends {k fuel : Nat}
    (hcalls : ∀ c, (calls c).answer ≠ .error errIntr ∧ NonEmpty (calls c).arrivals) (c : Nat)
    {count : Nat} (s : ReceiveSocket ε) (hk : s.slots = k) (hqueue : NonEmpty s.queue)
    (hcount : count < maxReceivePerLoop) (hfuel : maxReceivePerLoop ≤ count + k * fuel) :
    ∃ r t, receiveLoop calls fuel c count s = some (r, t) ∧
      t.arrived.length + s.queue.length ≤ s.arrived.length + t.queue.length + k * fuel := by
  induction fuel generalizing c count s with
  | zero => omega
  | succ fuel ih =>
    obtain ⟨hintr, harrivals⟩ := hcalls c
    have hslots : (s.arrive (calls c).arrivals).slots = k := hk
    have hlength : (s.arrive (calls c).arrivals).queue.length =
        s.queue.length + (calls c).arrivals.length := List.length_append
    have harrived : (s.arrive (calls c).arrivals).arrived.length =
        s.arrived.length + (calls c).arrivals.length := List.length_append
    have hnonempty : NonEmpty (s.arrive (calls c).arrivals).queue := by
      intro r hr
      rcases List.mem_append.mp hr with hold | hnew
      · exact hqueue r hold
      · exact harrivals r hnew
    rw [Nat.mul_add_one] at *
    rw [receiveLoop]
    generalize s.arrive (calls c).arrivals = u at *
    dsimp only
    split
    next errno herror =>
      rw [if_neg (by rintro rfl; exact hintr herror)]
      split_ifs
      all_goals exact ⟨_, _, rfl, by omega⟩
    next limit _ =>
      obtain ⟨hle, hlen⟩ := u.nread_le limit
      have hdrop : (u.readSlots (u.nread limit)).queue.length = u.queue.length - u.nread limit :=
        List.length_drop
      have hsame : (u.readSlots (u.nread limit)).arrived.length = u.arrived.length := rfl
      split_ifs with hnone hshort hless
      · exact ⟨_, _, rfl, by omega⟩
      · exact ⟨_, _, rfl, by omega⟩
      · -- A call that fills all slots brings the count nearer to its limit by as many.
        have hcounted : u.nread limit ≤ counted u.gro (u.queue.take (u.nread limit)) := by
          have htaken : NonEmpty (u.queue.take (u.nread limit)) :=
            fun r hr => hnonempty r (List.mem_of_mem_take hr)
          have hcounted := length_le_counted u.gro htaken
          rwa [List.length_take, Nat.min_eq_left hlen] at hcounted
        obtain ⟨r, t, ht, hread⟩ := ih (c + 1) (u.readSlots (u.nread limit)) hslots
          (fun r hr => hnonempty r (List.mem_of_mem_drop hr)) hless (by omega)
        exact ⟨r, t, ht, by omega⟩
      · exact ⟨_, _, rfl, by omega⟩

/-- A flood of empty datagrams, which are not counted. -/
theorem receiveLoop_endless (hdr : MsgHdr ε) {k : Nat} (fuel c : Nat) (s : ReceiveSocket ε)
    (hk : s.slots = k) (hqueue : s.queue = []) :
    receiveLoop (fun _ => ⟨List.replicate k ⟨[], hdr⟩, .read k⟩) fuel c 0 s = none := by
  induction fuel generalizing c s with
  | zero => rfl
  | succ fuel ih =>
    have hpos : 8 ≤ k := by
      rw [← hk]
      unfold slots groSlots maxReceivePerLoop
      split_ifs <;> omega
    have hslots : (s.arrive (List.replicate k ⟨[], hdr⟩)).slots = k := hk
    have hfull : (s.arrive (List.replicate k ⟨[], hdr⟩)).queue = List.replicate k ⟨[], hdr⟩ := by
      simp [arrive, hqueue]
    rw [receiveLoop]
    generalize s.arrive (List.replicate k ⟨[], hdr⟩) = u at *
    have hread : u.nread k = k := by
      unfold nread
      rw [hslots, hfull, List.length_replicate]
      omega
    have hcounted : counted u.gro (u.queue.take k) = 0 := by
      simp [counted, hfull, processReceived]
    have hne : u.queue ≠ [] := by
      rw [hfull, ← List.length_pos_iff_ne_nil, List.length_replicate]
      omega
    simp only [hread, hcounted, hslots, if_neg hne, Nat.lt_irrefl, if_false, Nat.add_zero]
    rw [if_pos (by decide)]
    exact ih (c + 1) (u.readSlots k) hslots (by simp [readSlots, hfull])

/-- An event on which no datagram is empty ends after `64 / slots` calls, if none is interrupted,
and has read 64 datagrams at most, however many packets they carry and however many arrive
meanwhile. Empty ones are not counted: as long as they come, an event may not end. -/
theorem receive_ends (s : ReceiveSocket ε) :
    (∀ calls : Nat → RecvCall ε, NonEmpty s.queue →
      (∀ c, (calls c).answer ≠ .error errIntr ∧ NonEmpty (calls c).arrivals) →
      ∃ r t, s.receive calls (maxReceivePerLoop / s.slots) = some (r, t) ∧
        t.arrived.length + s.queue.length ≤
          s.arrived.length + t.queue.length + maxReceivePerLoop) ∧
    ∀ hdr fuel, s.queue = [] →
      s.receive (fun _ => ⟨List.replicate s.slots ⟨[], hdr⟩, .read s.slots⟩) fuel = none := by
  have hexact : s.slots * (maxReceivePerLoop / s.slots) = maxReceivePerLoop := by
    unfold slots
    split_ifs <;> rfl
  refine ⟨fun calls hqueue hcalls => ?_, fun hdr fuel hqueue => ?_⟩
  · obtain ⟨r, t, ht, hread⟩ := receiveLoop_ends hcalls 0 s rfl hqueue
      (show 0 < maxReceivePerLoop by decide) (by rw [hexact, Nat.zero_add])
    exact ⟨r, t, ht, by rwa [hexact] at hread⟩
  · exact receiveLoop_endless hdr fuel 0 s rfl hqueue

/-- A datagram of one byte arrives for each slot before every call. -/
theorem receive_ends_flooded :
    ∃ r t, receive (fun _ => ⟨List.replicate 8 ⟨[1], { ecn := 0 }⟩, .read 8⟩) 8
        ({ gro := true } : ReceiveSocket Nat) = some (r, t) ∧
      t.arrived.length ≤ t.queue.length + 64 := by
  obtain ⟨r, t, ht, hread⟩ := (receive_ends ({ gro := true } : ReceiveSocket Nat)).1
    (fun _ => ⟨List.replicate 8 ⟨[1], { ecn := 0 }⟩, .read 8⟩) (by simp [NonEmpty])
    (by simp [NonEmpty])
  exact ⟨r, t, ht, by simpa [maxReceivePerLoop] using hread⟩

/-! ## An empty queue -/

/-- Nothing arrives, and the calls do not fail. -/
def Quiet (calls : Nat → RecvCall ε) : Prop :=
  ∀ c, (calls c).arrivals = [] ∧ ∃ limit, (calls c).answer = .read limit

/-- The socket is readable `n` times. -/
def receiveEvents (events : Nat → Nat → RecvCall ε) (fuel : Nat) :
    (n : Nat) → ReceiveSocket ε → Option (ReceiveSocket ε)
  | 0, s => some s
  | n + 1, s => do
    let (_, t) ← s.receive (events n) fuel
    receiveEvents events fuel n t

theorem readSlots_zero (s : ReceiveSocket ε) : s.readSlots 0 = s := by
  simp [readSlots, packets]

theorem readSlots_readSlots (s : ReceiveSocket ε) (n m : Nat) :
    (s.readSlots n).readSlots m = s.readSlots (n + m) := by
  simp [readSlots, List.take_add, packets_append]

theorem length_readSlots (s : ReceiveSocket ε) (n : Nat) :
    (s.readSlots n).queue.length = s.queue.length - n := List.length_drop

theorem receiveLoop_quiet (hcalls : Quiet calls) {fuel : Nat} (c count : Nat)
    (s : ReceiveSocket ε) (hfuel : s.queue.length < fuel) :
    ∃ r m, receiveLoop calls fuel c count s = some (r, s.readSlots m) ∧
      (s.queue ≠ [] → 1 ≤ m) := by
  induction fuel generalizing c count s with
  | zero => omega
  | succ fuel ih =>
    obtain ⟨harrivals, limit, hlimit⟩ := hcalls c
    have hsame : s.arrive [] = s := by simp [arrive]
    rw [receiveLoop]
    simp only [harrivals, hlimit, hsame]
    split_ifs with hnone hshort hless
    · exact ⟨_, 0, by rw [readSlots_zero], fun hne => absurd hnone hne⟩
    · exact ⟨_, _, rfl, nread_pos limit⟩
    · have hpos := nread_pos limit hnone
      have hlen := List.length_pos_iff.mpr hnone
      obtain ⟨r, m, hm, -⟩ := ih (c + 1) (count + counted s.gro (s.queue.take (s.nread limit)))
        (s.readSlots (s.nread limit)) (by rw [length_readSlots]; omega)
      exact ⟨r, _, by rw [hm, readSlots_readSlots], fun _ => by omega⟩
    · exact ⟨_, _, rfl, nread_pos limit⟩

theorem receiveEvents_quiet {events : Nat → Nat → RecvCall ε} (hevents : ∀ n, Quiet (events n))
    {fuel : Nat} (n : Nat) (s : ReceiveSocket ε) (hfuel : s.queue.length < fuel) :
    ∃ m, receiveEvents events fuel n s = some (s.readSlots m) ∧ min n s.queue.length ≤ m := by
  induction n generalizing s with
  | zero => exact ⟨0, by rw [readSlots_zero]; rfl, by omega⟩
  | succ n ih =>
    obtain ⟨r, m, hm, hpos⟩ := receiveLoop_quiet (hevents n) 0 0 s hfuel
    have hleft := s.length_readSlots m
    obtain ⟨m', hm', hle⟩ := ih (s.readSlots m) (by omega)
    refine ⟨m + m', ?_, ?_⟩
    · rw [receiveEvents, receive, hm]
      exact hm'.trans (by rw [readSlots_readSlots])
    · rcases Nat.eq_zero_or_pos s.queue.length with hzero | hlen
      · omega
      · have := hpos (List.length_pos_iff.mp hlen)
        omega

/-- If nothing more arrives, as many events as there are datagrams empty the queue, also with calls
that give fewer than they could, and the callback has been called with all packets of it. -/
theorem receive_drains (s : ReceiveSocket ε) (events : Nat → Nat → RecvCall ε)
    (hevents : ∀ n, Quiet (events n)) :
    ∃ t, receiveEvents events (s.queue.length + 1) s.queue.length s = some t ∧ t.queue = [] ∧
      t.delivered = s.delivered ++ packets s.gro s.queue := by
  obtain ⟨m, hm, hle⟩ := receiveEvents_quiet hevents s.queue.length s (Nat.lt_succ_self _)
  rw [Nat.min_self] at hle
  refine ⟨_, hm, List.drop_eq_nil_of_le hle, ?_⟩
  rw [readSlots, List.take_of_length_le hle]

/-- Two datagrams, of which each call gives one. -/
theorem receive_drains_singly :
    let s : ReceiveSocket Nat :=
      { gro := false, queue := [⟨[1], { ecn := 0 }⟩, ⟨[2], { ecn := 0 }⟩] }
    ∃ t, receiveEvents (fun _ _ => ⟨[], .read 1⟩) 3 2 s = some t ∧ t.queue = [] ∧
      t.delivered = [⟨[1], 0⟩, ⟨[2], 0⟩] := by
  intro s
  exact receive_drains s (fun _ _ => ⟨[], .read 1⟩) fun _ _ => ⟨rfl, 1, rfl⟩

end ReceiveSocket

end Libquic
