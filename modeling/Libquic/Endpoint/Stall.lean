import Libquic.Connection.FlushSpec
import Libquic.Lib.Machine

/-!
# The shared send batch

All connections of an endpoint build their packets in one batch. A flush that finds the
socket blocked leaves its packets there, stalled, until `resume_stalled_send` gets rid
of them; other connections wait meanwhile.

The endpoint is a machine. Its inputs are the flushes of its connections, turn by turn,
the socket becoming writable, and what happens in between: the application and ngtcp2
change streams and datagrams, a connection's route changes, a connection halts. A
route change that a send itself brings about (`packet_too_big`, `send_unreachable`) is
a step of its own right after it, since nothing reads the path before that.
-/
namespace Libquic

open Lib

structure SendEndpoint (Addr δ : Type) where
  conns : Nat → FlushConn Addr δ
  batch : SendBatch Addr
  /-- The connection that is flushing, and the variables of its loop. -/
  building : Option (Nat × FlushLoop) := none
  /-- For each packet that a connection without NAT64 has passed to `send_packets`: the path
  reported, and the path used. -/
  handed : List (Path Addr × Path Addr) := []

namespace SendEndpoint

variable {Addr δ : Type}

inductive Op (Addr δ : Type) where
  | flushPackets (i mid maxStreamPackets : Nat)
  | iterate (w : Write Addr)
  | resumeStalledSend (transport : Transport)
  | setRoute (i : Nat) (path : Path Addr) (nat64Path : Option (Path Addr))
  | change (i : Nat) (streams : List (Int × Stream)) (dgrams : Option δ)
  | halt (i : Nat)

/-- Change one connection. -/
def modify (x : SendEndpoint Addr δ) (i : Nat) (f : FlushConn Addr δ → FlushConn Addr δ) :
    SendEndpoint Addr δ :=
  { x with conns := Function.update x.conns i (f (x.conns i)) }

/-- Connection `i`'s view of a flush. -/
def flush (x : SendEndpoint Addr δ) (i : Nat) (loop : Option FlushLoop) : Flush Addr δ :=
  ⟨x.conns i, x.batch, loop, x.handed⟩

def afterFlush (x : SendEndpoint Addr δ) (i : Nat) (y : Flush Addr δ) : SendEndpoint Addr δ where
  conns := Function.update x.conns i y.conn
  batch := y.batch
  building := y.loop.map (i, ·)
  handed := y.handed

def waitForSendStall (x : SendEndpoint Addr δ) (i : Nat) : SendEndpoint Addr δ :=
  if x.batch.owner = some i || (x.conns i).waitingOnStall then x
  else { x.modify i ({ · with waitingOnStall := true }) with
    batch := { x.batch with waiters := x.batch.waiters ++ [i] } }

def forgetSendStall (x : SendEndpoint Addr δ) (i : Nat) : SendEndpoint Addr δ :=
  let x := if x.batch.owner = some i then { x with batch.owner := none } else x
  if (x.conns i).waitingOnStall then
    { x.modify i ({ · with waitingOnStall := false }) with
      batch := { x.batch with waiters := x.batch.waiters.erase i } }
  else x

/-- Connection `i` begins a flush. `mid` is the random stream to start from. -/
def flushPackets (Q : DgramChannel δ) (i mid maxStreamPackets : Nat) (x : SendEndpoint Addr δ) :
    Except Fault (SendEndpoint Addr δ) :=
  let c := x.conns i
  if c.dead then .ok x
  else if x.batch.stalled then .ok (x.waitForSendStall i)
  else if x.batch.nPackets ≠ 0 then .error .assertion
  else
    let dgramsWaiting := c.dgrams.any fun q => !Q.isEmpty q
    .ok { x with
      building := some (i,
        { channels := selectChannels c.streams dgramsWaiting mid
          maxStreamPackets := maxStreamPackets }) }

/-- The end of a stall: the batch is free again, and the waiters are woken. -/
def clearStall (x : SendEndpoint Addr δ) : SendEndpoint Addr δ :=
  { x with
    batch := { arrays := x.batch.arrays }
    conns := fun i =>
      if i ∈ x.batch.waiters then { x.conns i with waitingOnStall := false } else x.conns i }

def resumeStalledSend [Inhabited Addr] (transport : Transport) (x : SendEndpoint Addr δ) :
    Except Fault (SendEndpoint Addr δ) :=
  if !x.batch.stalled then .error .assertion
  else match x.batch.owner with
    | none => .ok x.clearStall
    | some i =>
      if (x.conns i).dead then .ok x.clearStall
      else do
        let (result, batch) ← x.batch.hand transport
        let x := { x with
          batch := batch, handed := x.handed ++ x.batch.handing (x.conns i) }
        return if result = .blocked then x else x.clearStall

/-- The connection whose packets are in the batch. -/
def holder (x : SendEndpoint Addr δ) : Option Nat :=
  match x.building with
  | some (i, _) => some i
  | none => x.batch.owner

def step [Inhabited Addr] (Q : DgramChannel δ) (x : SendEndpoint Addr δ) :
    Op Addr δ → Except Fault (SendEndpoint Addr δ)
  | .flushPackets i mid maxStreamPackets => x.flushPackets Q i mid maxStreamPackets
  | .iterate w =>
    match x.building with
    | none => .ok x
    | some (i, f) => do return x.afterFlush i (← (x.flush i (some f)).iterate Q i w)
  | .resumeStalledSend transport => x.resumeStalledSend transport
  | .setRoute i path nat64Path =>
    .ok (x.modify i ({ · with path := path, nat64Path := nat64Path }))
  | .change i streams dgrams => .ok (x.modify i ({ · with streams := streams, dgrams := dgrams }))
  | .halt i => .ok (x.forgetSendStall i)

/-- A flush runs to its end before anything else happens, except that routes change and that
callbacks of the application queue data; they do not remove streams. What is sent is sent
through a transport that delivers, and ngtcp2 keeps its promises. -/
def Enabled (x : SendEndpoint Addr δ) : Op Addr δ → Prop
  | .flushPackets .. => x.building = none
  | .iterate w => w.transport.Delivers maxBatch ∧
      ∃ i f, x.building = some (i, f) ∧ w.Honest (x.flush i (some f))
  | .resumeStalledSend transport => transport.Delivers maxBatch ∧ x.building = none ∧
      x.batch.stalled = true
  | .setRoute .. => True
  | .change i streams dgrams => (∀ entry ∈ streams, entry.2.Sendable) ∧
      (x.building ≠ none → (x.conns i).streams.map Prod.fst ⊆ streams.map Prod.fst ∧
        ((x.conns i).dgrams ≠ none → dgrams ≠ none))
  | .halt _ => x.building = none

/-- While a connection has packets in the batch, its path stays the same. -/
def OnePath (x : SendEndpoint Addr δ) : Op Addr δ → Prop
  | .iterate w => ∀ i ∈ x.holder, x.batch.nPackets ≠ 0 → w.path = (x.conns i).path
  | .setRoute i path _ => x.holder = some i → x.batch.nPackets ≠ 0 → path = (x.conns i).path
  | _ => True

/-- The machine, with a further condition on its inputs. -/
def machine [Inhabited Addr] (Q : DgramChannel δ)
    (given : SendEndpoint Addr δ → Op Addr δ → Prop) :
    Machine (SendEndpoint Addr δ) (Op Addr δ) Fault where
  initial x := x.building = none ∧ x.handed = [] ∧ x.batch.stalled = false ∧
    x.batch.owner = none ∧ x.batch.waiters = [] ∧ x.batch.Holding [] ∧
    ∀ i, (x.conns i).waitingOnStall = false ∧ ∀ entry ∈ (x.conns i).streams, entry.2.Sendable
  enabled x op := x.Enabled op ∧ given x op
  step := step Q

/-! ## The invariant -/

variable {k : Prop} {x : SendEndpoint Addr δ}

/-- Between flushes the batch is empty, or stalled with packets in it. If its owner is still
there, in runs where `k` is assumed, they were reported with the path that the owner has now. -/
structure Resting (k : Prop) (x : SendEndpoint Addr δ) (pkts : List (Packet (Mark Addr))) : Prop where
  batch : x.batch.Holding pkts
  done : x.batch.stalled = false ∧ pkts = [] ∨ x.batch.stalled = true ∧ pkts ≠ []
  marks : k → ∀ i, x.batch.owner = some i → ∀ p ∈ pkts, p.ecn.path = (x.conns i).path

structure Inv (k : Prop) (x : SendEndpoint Addr δ) : Prop where
  streams : ∀ i, ∀ entry ∈ (x.conns i).streams, entry.2.Sendable
  handed : k → ∀ h ∈ x.handed, h.1 = h.2
  building : ∀ i f, x.building = some (i, f) → (x.flush i (some f)).Inv k i
  resting : x.building = none → ∃ pkts, Resting k x pkts

/-- A connection other than the holder of the batch may change, and the holder may as long as
its path stays. -/
theorem Inv.modify (h : x.Inv k) (i : Nat) {f : FlushConn Addr δ → FlushConn Addr δ}
    (hs : ∀ entry ∈ (f (x.conns i)).streams, entry.2.Sendable)
    (hpath : k → x.holder = some i → x.batch.nPackets ≠ 0 → (f (x.conns i)).path = (x.conns i).path)
    (hch : x.building ≠ none → ∀ l, Channels (x.conns i) l → Channels (f (x.conns i)) l) :
    (x.modify i f).Inv k := by
  have hsame {j : Nat} (hj : j ≠ i) : (x.modify i f).conns j = x.conns j :=
    Function.update_of_ne hj ..
  have hself : (x.modify i f).conns i = f (x.conns i) := Function.update_self ..
  refine ⟨fun j => ?_, h.handed, fun j loop hb => ?_, fun hb => ?_⟩
  · exact (Function.forall_update_iff x.conns fun _ c => ∀ entry ∈ c.streams, entry.2.Sendable).mpr
      ⟨hs, fun j _ => h.streams j⟩ j
  · have hflush := h.building j loop hb
    by_cases hj : j = i
    · subst hj
      obtain ⟨pkts, hpkts⟩ := hflush
      have hholder : x.holder = some j := by
        rw [holder, show x.building = some (j, loop) from hb]
      rw [flush, hself]
      exact ⟨pkts, hpkts.setConn hs
        (fun hk hne => hpath hk hholder (hpkts.batch.nPackets_ne_zero hne))
        fun l hl => hch (hb ▸ by simp) l hl⟩
    · rw [flush, hsame hj]
      exact hflush
  · obtain ⟨pkts, hrest⟩ := h.resting hb
    refine ⟨pkts, hrest.batch, hrest.done, fun hk j hj p hp => ?_⟩
    by_cases hji : j = i
    · subst hji
      have hne := hrest.batch.nPackets_ne_zero (List.ne_nil_of_mem hp)
      have hholder : x.holder = some j := by
        rw [holder, show x.building = none from hb]
        exact hj
      rw [hself, hpath hk hholder hne]
      exact hrest.marks hk j hj p hp
    · rw [hsame hji]
      exact hrest.marks hk j hj p hp

/-- The batch's owner may go, and its waiters do not matter. -/
theorem Inv.setWaiters (h : x.Inv k) (hb : x.building = none) {owner : Option Nat}
    (waiters : List Nat) (howner : ∀ i, owner = some i → x.batch.owner = some i) :
    { x with batch := { x.batch with owner := owner, waiters := waiters } }.Inv k := by
  refine ⟨h.streams, h.handed, ?_, fun _ => ?_⟩
  · intro i f hsome
    exact absurd (hb.symm.trans hsome) (by simp)
  · obtain ⟨pkts, hrest⟩ := h.resting hb
    exact ⟨pkts, ⟨hrest.batch.buf, hrest.batch.size, hrest.batch.ecn, hrest.batch.holds,
      hrest.batch.count, hrest.batch.le, hrest.batch.fits⟩, hrest.done,
      fun hk i hi => hrest.marks hk i (howner i hi)⟩

theorem Inv.afterFlush (h : x.Inv k) {i : Nat} {y : Flush Addr δ} (hy : y.Inv k i) :
    (x.afterFlush i y).Inv k := by
  obtain ⟨pkts, hsound⟩ := hy.sound
  have hsame {j : Nat} (hj : j ≠ i) : (x.afterFlush i y).conns j = x.conns j :=
    Function.update_of_ne hj ..
  have hself : (x.afterFlush i y).conns i = y.conn := Function.update_self ..
  refine ⟨fun j => ?_, fun hk => (hsound.straight hk).handed, fun j f hb => ?_, fun hb => ?_⟩
  · exact (Function.forall_update_iff x.conns fun _ c => ∀ entry ∈ c.streams, entry.2.Sendable).mpr
      ⟨hsound.streams, fun j _ => h.streams j⟩ j
  · obtain ⟨f', hloop, hpair⟩ := Option.map_eq_some_iff.mp hb
    obtain ⟨rfl, rfl⟩ := Prod.mk.inj hpair
    have hflush : (x.afterFlush i y).flush i (some f') = y := by
      rw [flush, hself, ← hloop]
      rfl
    rwa [hflush]
  · rw [Flush.Inv, Option.map_eq_none_iff.mp hb] at hy
    obtain ⟨pkts, hret⟩ := hy
    refine ⟨pkts, hret.batch, ?_, fun hk j hj p hp => ?_⟩
    · exact hret.done.imp_right fun hst => ⟨hst.1, hst.2.1⟩
    · rcases hret.done with ⟨-, rfl⟩ | ⟨-, -, howner⟩
      · simp at hp
      · obtain rfl : i = j := Option.some.inj (howner.symm.trans hj)
        rw [hself]
        exact (hret.straight hk).marks p hp

theorem Inv.waitForSendStall (h : x.Inv k) (hb : x.building = none) (i : Nat) :
    (x.waitForSendStall i).Inv k := by
  unfold SendEndpoint.waitForSendStall
  split_ifs
  · exact h
  · have hm : (x.modify i ({ · with waitingOnStall := true })).Inv k :=
      h.modify i (h.streams i) (fun _ _ _ => rfl) (absurd hb)
    exact hm.setWaiters hb _ fun _ ho => ho

theorem Inv.forgetSendStall (h : x.Inv k) (hb : x.building = none) (i : Nat) :
    (x.forgetSendStall i).Inv k := by
  have hgone : (if x.batch.owner = some i then { x with batch.owner := none } else x).Inv k ∧
      (if x.batch.owner = some i then { x with batch.owner := none } else x).building = none := by
    split_ifs
    · exact ⟨h.setWaiters hb x.batch.waiters (by simp), hb⟩
    · exact ⟨h, hb⟩
  unfold SendEndpoint.forgetSendStall
  dsimp only
  generalize (if x.batch.owner = some i then { x with batch.owner := none } else x) = y at hgone
  obtain ⟨hy, hyb⟩ := hgone
  split_ifs
  · have hm : (y.modify i ({ · with waitingOnStall := false })).Inv k :=
      hy.modify i (hy.streams i) (fun _ _ _ => rfl) (absurd hyb)
    exact hm.setWaiters hyb _ fun _ ho => ho
  · exact hy

/-- The channels of a new flush are the connection's own. -/
theorem channels_selectChannels (c : FlushConn Addr δ) (waiting : Bool) (mid : Nat)
    (hw : waiting = true → c.dgrams ≠ none) :
    Channels c (selectChannels c.streams waiting mid) := by
  refine ⟨fun _ => ⟨_, rfl, ?_⟩, fun id hid => ?_, fun hd => hw ?_⟩
  · cases waiting <;> simp
  · obtain ⟨s, hmem, -⟩ := mem_selectChannels.mp hid
    exact ⟨_, hmem, rfl⟩
  · by_contra hnot
    simp [selectChannels, hnot] at hd

/-- A flush that starts to build packets finds the batch empty. -/
theorem Inv.flushPackets (h : x.Inv k) (hb : x.building = none) (Q : DgramChannel δ)
    (i mid maxStreamPackets : Nat) :
    ∃ y, x.flushPackets Q i mid maxStreamPackets = .ok y ∧ y.Inv k := by
  unfold SendEndpoint.flushPackets
  dsimp only
  obtain ⟨pkts, hrest⟩ := h.resting hb
  split_ifs with hdead hstalled hn
  · exact ⟨x, rfl, h⟩
  · exact ⟨_, rfl, h.waitForSendStall hb i⟩
  · rcases hrest.done with ⟨-, rfl⟩ | ⟨hst, -⟩
    · exact absurd hrest.batch.count hn
    · exact absurd hst hstalled
  · obtain rfl : pkts = [] := by
      by_contra hne
      exact hrest.batch.nPackets_ne_zero hne (not_not.mp hn)
    have hclear : x.batch.stalled = false := by simpa using hstalled
    have hwaiting : ((x.conns i).dgrams.any fun q => !Q.isEmpty q) = true →
        (x.conns i).dgrams ≠ none := fun hw hnone => by simp [hnone] at hw
    refine ⟨_, rfl, h.streams, h.handed, ?_, by simp⟩
    intro j f hsome
    cases hsome
    exact ⟨[], ⟨hrest.batch, h.streams i, fun hk => ⟨by simp, h.handed hk⟩⟩, hclear, rfl,
      by simp [maxBatch], channels_selectChannels _ _ mid hwaiting, by simp⟩

theorem nPackets_of_building {Q : DgramChannel δ} {i mid n : Nat} {y : SendEndpoint Addr δ}
    (hok : x.flushPackets Q i mid n = .ok y) (hb : x.building = none) (hy : y.building ≠ none) :
    x.batch.nPackets = 0 := by
  have hwait : (x.waitForSendStall i).building = none := by
    unfold SendEndpoint.waitForSendStall
    split_ifs <;> exact hb
  unfold SendEndpoint.flushPackets at hok
  dsimp only at hok
  split_ifs at hok with hdead hst hn
  · exact absurd (Except.ok.inj hok ▸ hb) hy
  · exact absurd (Except.ok.inj hok ▸ hwait) hy
  · exact not_not.mp hn

/-- Whatever was in the batch, a stall ends with it empty. -/
theorem clearStall_inv (hs : ∀ i, ∀ entry ∈ (x.conns i).streams, entry.2.Sendable)
    (hh : k → ∀ h ∈ x.handed, h.1 = h.2)
    (hb : x.building = none) {pkts : List (Packet (Mark Addr))} (hhold : x.batch.Holding pkts) :
    x.clearStall.Inv k := by
  have hconn (i : Nat) : (x.clearStall.conns i).streams = (x.conns i).streams := by
    unfold SendEndpoint.clearStall
    dsimp only
    split_ifs <;> rfl
  refine ⟨fun i => ?_, hh, ?_, fun _ => ⟨[], ?_⟩⟩
  · rw [hconn i]
    exact hs i
  · intro i f hsome
    exact absurd (hb.symm.trans hsome) (by simp)
  · have hempty := hhold.discard
    exact ⟨⟨hempty.buf, hempty.size, hempty.ecn, hempty.holds, rfl, hempty.le, hempty.fits⟩,
      .inl ⟨rfl, rfl⟩, by simp⟩

theorem Inv.resumeStalledSend [Inhabited Addr] (h : x.Inv k) (hb : x.building = none)
    (hst : x.batch.stalled = true) {transport : Transport} (ht : transport.Delivers maxBatch) :
    ∃ y, x.resumeStalledSend transport = .ok y ∧ y.Inv k := by
  obtain ⟨pkts, hrest⟩ := h.resting hb
  have hdiscard : x.clearStall.Inv k := clearStall_inv h.streams h.handed hb hrest.batch
  rw [SendEndpoint.resumeStalledSend, if_neg (by simp [hst])]
  cases howner : x.batch.owner with
  | none => exact ⟨_, rfl, hdiscard⟩
  | some i =>
    dsimp only
    by_cases hdead : (x.conns i).dead = true
    · rw [if_pos hdead]
      exact ⟨_, rfl, hdiscard⟩
    · rw [if_neg hdead]
      obtain ⟨result, arrays, kept, hhand, hhold, hsub, hblocked⟩ := hrest.batch.hand ht
      have hstraight (hk : k) : Flush.Straight (x.conns i)
          (x.handed ++ x.batch.handing (x.conns i)) kept :=
        Flush.Straight.hand ⟨hrest.marks hk i howner, h.handed hk⟩ hrest.batch hsub
      refine ⟨_, by rw [hhand, ok_bind]; rfl, ?_⟩
      by_cases hret : result = .blocked
      · rw [if_pos hret]
        refine ⟨h.streams, fun hk => (hstraight hk).handed, ?_, fun _ => ⟨kept, hhold,
          .inr ⟨hst, hblocked.mp hret⟩, fun hk j hj => ?_⟩⟩
        · intro j f hsome
          exact absurd (hb.symm.trans hsome) (by simp)
        · obtain rfl : i = j := Option.some.inj (howner.symm.trans hj)
          exact (hstraight hk).marks
      · rw [if_neg hret]
        exact clearStall_inv h.streams (fun hk => (hstraight hk).handed) hb hhold

/-- A condition on inputs that, if `k` is assumed, makes every packet of a batch be reported
with one path. -/
def Suffices (k : Prop) (given : SendEndpoint Addr δ → Op Addr δ → Prop) : Prop :=
  k → ∀ x op, given x op → OnePath x op

theorem inv_inductive [Inhabited Addr] (Q : DgramChannel δ)
    {given : SendEndpoint Addr δ → Op Addr δ → Prop} (hgiven : Suffices k given) :
    (machine Q given).Inductive (Inv k) where
  initial := by
    rintro x ⟨hb, hh, hst, howner, -, hhold, hconns⟩
    refine ⟨fun i => (hconns i).2, by simp [hh], ?_, fun _ => ⟨[], ?_⟩⟩
    · intro i f hsome
      exact absurd (hb.symm.trans hsome) (by simp)
    · exact ⟨hhold, .inl ⟨hst, rfl⟩, by simp⟩
  step := by
    rintro x op h ⟨hen, hg⟩
    have hone (hk : k) : OnePath x op := hgiven hk x op hg
    cases op with
    | flushPackets i mid n => exact h.flushPackets hen Q i mid n
    | iterate w =>
      obtain ⟨ht, i, f, hb, hw⟩ := hen
      have hholder : x.holder = some i := by rw [holder, hb]
      obtain ⟨y, hok, hy⟩ := (h.building i f hb).iterate (Q := Q) hw
        (fun hk hne => hone hk i hholder hne) ht
      exact ⟨x.afterFlush i y, by simp [machine, step, hb, hok], h.afterFlush hy⟩
    | resumeStalledSend transport => exact h.resumeStalledSend hen.2.1 hen.2.2 hen.1
    | setRoute i path nat64Path =>
      exact ⟨_, rfl, h.modify i (h.streams i) hone fun _ l hl =>
        hl.congr (fun _ he => he) fun hd => hd⟩
    | change i streams dgrams =>
      refine ⟨_, rfl, h.modify i hen.1 (fun _ _ _ => rfl) fun hb l hl => ?_⟩
      refine hl.congr (fun id hid => ?_) (hen.2 hb).2
      simpa using (hen.2 hb).1 (by simpa using hid)
    | halt i => exact ⟨_, rfl, h.forgetSendStall hen i⟩

/-! ## The batch is never left behind -/

/-- `send_packets` returns whatever the transport does. It splits the batch into packets sent
in order, packets dropped, and packets kept at the front of the arrays, which there are
exactly if it is blocked, for every transport except a router that throws and a closed
socket. With the other transports every flush that builds packets starts with an empty
batch, and ends with it empty or stalled. -/
theorem batch_empty_or_stalled [Inhabited Addr] (Q : DgramChannel δ) :
    (∀ (transport : Transport) (a : Arrays UInt8) (pkts : List (Packet UInt8)), a.Holds pkts →
      1 ≤ pkts.length → pkts.length ≤ maxBatch → (∀ p ∈ pkts, p.data ≠ []) →
      (∃ r, sendPackets transport a pkts.length = some r) ∧
        ((∃ r, sendPackets transport a pkts.length = some r ∧
          Accounts 0 [] pkts (transport.fates pkts) r) ↔ transport.Delivers pkts.length)) ∧
    ∀ x : SendEndpoint Addr δ, (machine Q fun _ _ => True).Reachable x →
      (x.building = none → x.batch.nPackets = 0 ∨ x.batch.stalled = true) ∧
      (∀ op, x.Enabled op → ∃ y, x.step Q op = .ok y) ∧
      ∀ i mid n y, x.flushPackets Q i mid n = .ok y → x.building = none → y.building ≠ none →
        x.batch.nPackets = 0 := by
  refine ⟨fun transport a pkts hold hpos _ hne => ?_, fun x hx => ?_⟩
  · by_cases ht : transport.Delivers pkts.length
    · obtain ⟨r, hok, hacc⟩ := sendPackets_accounts hold hne ht
      exact ⟨⟨r, hok⟩, iff_of_true ⟨r, hok, hacc⟩ ht⟩
    · obtain ⟨r, hok, hret, hn⟩ := sendPackets_stuck hold ht
      refine ⟨⟨r, hok⟩, iff_of_false ?_ ht⟩
      rintro ⟨r', hok', hacc⟩
      obtain rfl : r = r' := Option.some.inj (hok.symm.trans hok')
      have hkept : withFate .kept (transport.fates pkts) = [] := by
        simpa using mt hacc.blocked.mpr hret
      have := hacc.left
      simp only [hkept, List.length_nil] at this
      omega
  · have hind : (machine Q fun _ (_ : Op Addr δ) => True).Inductive (Inv False) :=
      inv_inductive Q fun hk => hk.elim
    refine ⟨fun hb => ?_, fun op hen => hind.progress hx ⟨hen, trivial⟩,
      fun i mid n y => nPackets_of_building⟩
    obtain ⟨pkts, hrest⟩ := (hind.reachable hx).resting hb
    exact hrest.done.imp (fun hd => by rw [hrest.batch.count, hd.2]; rfl) And.left

/-- An endpoint as it starts, with connections on `path`. -/
def start [Inhabited Addr] (path : Path Addr) : SendEndpoint Addr δ where
  conns _ := { path := path }
  batch :=
    { arrays :=
      { buf := List.replicate (maxBatch * maxPmtudUdpPayload) 0
        size := List.replicate maxBatch 0
        ecn := List.replicate maxBatch default } }

theorem start_holding [Inhabited Addr] (path : Path Addr) :
    (start path : SendEndpoint Addr δ).batch.Holding [] := by
  refine ⟨?_, ?_, ?_, Arrays.holds_nil _, rfl, Nat.zero_le _, by simp⟩ <;> simp [start]

theorem start_reachable [Inhabited Addr] (Q : DgramChannel δ)
    (given : SendEndpoint Addr δ → Op Addr δ → Prop) (path : Path Addr) :
    (machine Q given).Reachable (start path) :=
  .initial ⟨rfl, rfl, rfl, rfl, rfl, start_holding path, fun i => ⟨rfl, by simp [start]⟩⟩

/-- A channel that never has a datagram. -/
def noDgrams : DgramChannel Unit := ⟨fun _ q => (false, q), id, fun _ => true⟩

/-- A socket that sends what it is given. -/
def openSocket : Transport := .socket fun _ n => (.ok, Fin.last n)

/-- A socket that sends one packet, finds the next one too big, and is full then. -/
def narrowSocket : Transport := .socket fun call n =>
  if call = 0 then (.ok, Fin.ofNat (n + 1) 1) else if call = 1 then (.tooBig, 0) else (.blocked, 0)

/-- Of three packets one is sent, one is too big, and one waits. -/
theorem batch_empty_or_stalled_start :
    let pkts : List (Packet UInt8) := [⟨[7], 0⟩, ⟨[8, 9, 10], 1⟩, ⟨[11, 12], 2⟩]
    narrowSocket.fates pkts =
      [(⟨[7], 0⟩, .sent), (⟨[8, 9, 10], 1⟩, .tooBig), (⟨[11, 12], 2⟩, .kept)] ∧
    (∃ r, sendPackets narrowSocket ⟨[7, 8, 9, 10, 11, 12], [1, 3, 2], [0, 1, 2]⟩ 3 = some r ∧
      r.tooBig = 3 ∧ Accounts 0 [] pkts (narrowSocket.fates pkts) r) ∧
    (machine noDgrams fun _ _ => True).Reachable (start ⟨0, 1⟩ : SendEndpoint Nat Unit) ∧
    ((start ⟨0, 1⟩ : SendEndpoint Nat Unit).batch.nPackets = 0 ∨
      (start ⟨0, 1⟩ : SendEndpoint Nat Unit).batch.stalled = true) := by
  intro pkts
  have hmain := @batch_empty_or_stalled Nat Unit _ noDgrams
  have hholds : (⟨[7, 8, 9, 10, 11, 12], [1, 3, 2], [0, 1, 2]⟩ : Arrays UInt8).Holds pkts :=
    ⟨by unfold Lib.Memory.At; decide, by unfold Lib.Memory.At; decide,
      by unfold Lib.Memory.At; decide⟩
  have hreach := start_reachable (δ := Unit) noDgrams (fun _ _ => True) (⟨0, 1⟩ : Path Nat)
  obtain ⟨r, hok, hacc⟩ :=
    (hmain.1 narrowSocket _ pkts hholds (by decide) (by decide) (by decide)).2.mpr trivial
  have hbig : (sendPackets narrowSocket (⟨[7, 8, 9, 10, 11, 12], [1, 3, 2], [0, 1, 2]⟩ :
      Arrays UInt8) pkts.length).map SendResult.tooBig = some 3 := by decide
  rw [hok] at hbig
  exact ⟨by decide, ⟨r, hok, Option.some.inj hbig, hacc⟩, hreach, (hmain.2 _ hreach).1 rfl⟩

/-- A router that throws leaves the packet in the batch, though sending is not blocked. -/
theorem throwing_router_keeps_packet :
    sendPackets (.manualRouting fun _ => true) (⟨[7], [1], [0]⟩ : Arrays UInt8) 1 =
        some ⟨.failure errIo, ⟨[7], [1], [0]⟩, 1, 0, []⟩ ∧
      sendPackets .closed (⟨[7], [1], [0]⟩ : Arrays UInt8) 1 =
        some ⟨.failure errBadf, ⟨[7], [1], [0]⟩, 1, 0, []⟩ := by decide

/-! ## The path that a packet is sent with -/

/-- In runs where a connection's path stays the same while it has packets in the batch, each
packet of a connection without NAT64 is passed to `send_packets` with the path that ngtcp2
reported for it. -/
theorem packets_sent_on_reported_path [Inhabited Addr] (Q : DgramChannel δ)
    (h : (machine Q OnePath).Reachable x) : ∀ pair ∈ x.handed, pair.1 = pair.2 := by
  have hinv : x.Inv True := (inv_inductive Q fun _ _ _ hone => hone).reachable h
  exact hinv.handed trivial

/-- A write of a packet of one byte, reported with `path`. -/
def byteOn (path : Path Addr) : Write Addr where
  nwrite := .packet [7] 0
  path := path
  transport := openSocket

/-- A flush can write a packet for path `p` and then one for path `q`, and send both. -/
theorem two_packets_reachable [Inhabited Addr] (p q : Path Addr)
    (given : SendEndpoint Addr Unit → Op Addr Unit → Prop)
    (hgiven : ∀ x op, (p = q → OnePath x op) → given x op) :
    ∃ x, (machine noDgrams given).Reachable x ∧ x.handed = [(p, q), (q, q)] := by
  have hhonest (path : Path Addr) (x : Flush Addr Unit) : (byteOn path).Honest x :=
    ⟨rfl, Nat.zero_le _⟩
  -- The endpoint as it starts, forgetting how large its arrays are.
  obtain ⟨b₀, hb₀, hst₀, hn₀, hreach₀⟩ : ∃ b₀ : SendBatch Addr, b₀.Holding [] ∧ b₀.stalled = false ∧
      b₀.nPackets = 0 ∧ (machine noDgrams given).Reachable ⟨fun _ => { path := p }, b₀, none, []⟩ :=
    ⟨_, start_holding (δ := Unit) p, rfl, rfl, start_reachable noDgrams given p⟩
  let f : FlushLoop := { channels := [.pseudo], maxStreamPackets := 2 }
  let x₁ : SendEndpoint Addr Unit := ⟨fun _ => { path := p }, b₀, some (0, f), []⟩
  have hreach₁ : (machine noDgrams given).Reachable x₁ := by
    refine hreach₀.step (i := .flushPackets 0 0 2) ⟨rfl, hgiven _ _ fun _ => trivial⟩ ?_
    simp [machine, step, SendEndpoint.flushPackets, hst₀, hn₀, selectChannels, x₁, f]
  -- The first packet.
  obtain ⟨b₁, hpush₁, hb₁, hst₁⟩ := hb₀.push (by simp [maxBatch]) (List.cons_ne_nil 7 [])
    (by simp [maxPmtudUdpPayload]) ⟨0, p⟩
  let f₁ : FlushLoop := { f with bufPos := 1, streamPackets := 1 }
  let y₁ : Flush Addr Unit := ⟨{ path := p }, b₁, some f₁, []⟩
  have hiter₁ : (x₁.flush 0 (some f)).iterate noDgrams 0 (byteOn p) = .ok y₁ := by
    rw [Flush.iterate_pseudo rfl rfl rfl rfl hpush₁ (by simp [hb₁.count, maxBatch])]
    rfl
  have hreach₂ : (machine noDgrams given).Reachable (x₁.afterFlush 0 y₁) := by
    refine hreach₁.step (i := .iterate (byteOn p)) ⟨⟨trivial, 0, f, rfl, hhonest _ _⟩,
      hgiven _ _ fun _ i _ hne => absurd hn₀ hne⟩ ?_
    simp [machine, step, x₁, hiter₁]
  have hflush : (x₁.afterFlush 0 y₁).flush 0 (some f₁) = y₁ := by simp [flush, afterFlush, y₁]
  -- The second, which ends the flush.
  obtain ⟨b₂, hpush₂, hb₂, hst₂⟩ := hb₁.push (by simp [maxBatch]) (List.cons_ne_nil 7 [])
    (by simp [maxPmtudUdpPayload]) ⟨0, q⟩
  let y₂ : Flush Addr Unit := ⟨{ path := q }, b₂, some f₁, []⟩
  have hsound : Flush.Sound False y₂ ([] ++ [⟨[7], 0, p⟩] ++ [⟨[7], 0, q⟩]) :=
    ⟨hb₂, by simp [y₂], False.elim⟩
  obtain ⟨y₃, hfinish, -, -, hhanded⟩ := hsound.finish (i := 0) (hst₂.trans (hst₁.trans hst₀))
    (show openSocket.Delivers maxBatch from trivial)
  have hiter₂ : y₁.iterate noDgrams 0 (byteOn q) = .ok y₃ := by
    rw [Flush.iterate_pseudo rfl rfl rfl rfl hpush₂ (by simp [hb₂.count, maxBatch])]
    exact hfinish
  refine ⟨(x₁.afterFlush 0 y₁).afterFlush 0 y₃, ?_, hhanded.trans ?_⟩
  refine hreach₂.step (i := .iterate (byteOn q)) ⟨⟨trivial, 0, f₁, rfl, hhonest _ _⟩,
    hgiven _ _ fun hpq i hi _ => ?_⟩ ?_
  · obtain rfl : 0 = i := Option.some.inj hi
    exact hpq.symm
  · simp [machine, step, show (x₁.afterFlush 0 y₁).building = some (0, f₁) from rfl, hflush, hiter₂]
  · rw [hb₂.handing rfl]
    rfl

/-- Two packets for one path. -/
theorem packets_sent_on_reported_path_two :
    ∃ x : SendEndpoint Nat Unit, (machine noDgrams OnePath).Reachable x ∧
      x.handed = [(⟨0, 1⟩, ⟨0, 1⟩), (⟨0, 1⟩, ⟨0, 1⟩)] ∧ ∀ pair ∈ x.handed, pair.1 = pair.2 := by
  obtain ⟨x, hreach, hhanded⟩ := two_packets_reachable (⟨0, 1⟩ : Path Nat) ⟨0, 1⟩
    OnePath fun _ _ hone => hone rfl
  exact ⟨x, hreach, hhanded, packets_sent_on_reported_path noDgrams hreach⟩

/-- Two packets for different paths in one batch: the first is sent with the other's path. -/
theorem packet_sent_on_other_path :
    ∃ x : SendEndpoint Nat Unit, (machine noDgrams fun _ _ => True).Reachable x ∧
      x.handed = [(⟨0, 1⟩, ⟨0, 2⟩), (⟨0, 2⟩, ⟨0, 2⟩)] :=
  two_packets_reachable ⟨0, 1⟩ ⟨0, 2⟩ _ fun _ _ _ => trivial

end SendEndpoint

end Libquic
