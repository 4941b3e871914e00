import Libquic.Lib.Machine
import Libquic.Stream.Basic
import Mathlib.Logic.Function.Basic

/-!
# What wakes a connection

A connection sends only in `on_packet_io_ready`, and two events lead there: `packet_io_trigger`,
which `packet_io_ready` makes active, and `packet_retransmit_timer`, which is set again after each
flush for when ngtcp2 wants to be called. A flush that is skipped or stopped because the socket is
blocked sets no timer; the end of the stall wakes the connection instead.

What ngtcp2 writes in a flush and when it then expires are inputs, and so is what the application
does. Times are in nanoseconds. Nothing takes time but `tick`.
-/
namespace Libquic

open Lib

structure WakeConn where
  dead : Bool := false
  /-- `packet_io_trigger`: whether it is active, and `none` after `halt_events`. -/
  trigger : Option Bool := some false
  /-- `packet_retransmit_timer`: when it fires if it has been given a time, and `none` after
  `halt_events`. -/
  timer : Option (Option Nat) := some none
  waitingOnStall : Bool := false
  /-- `ngtcp2_conn_get_expiry`, where the largest value is `none` -/
  expiry : Option Nat
  /-- Something has come up since the last flush that may give the connection something to send,
  or the last flush has stalled. -/
  unflushed : Bool := false
  /-- The connection has been migrated, and no flush has followed. -/
  migrated : Bool := false
  /-- A job that ends the connection has been scheduled. -/
  ending : Bool := false
  deriving DecidableEq, Repr

/-- The connections of an endpoint and its stalled batch. -/
structure WakeEndpoint where
  now : Nat := 0
  conns : Nat → Option WakeConn := fun _ => none
  stalled : Bool := false
  owner : Option Nat := none
  waiters : List Nat := []

/-- The time that `schedule_packet_retransmit` sets at time `ts`: libevent counts in microseconds,
in two parts. -/
def retransmitTime (ts expiry : Nat) : Nat :=
  if ts < expiry then
    let delta := expiry - ts + 999
    ts + (delta / 1000000000 * 1000000 + delta % 1000000000 / 1000) * 1000
  else ts

/-- How a flush ends. -/
inductive FlushEnd where
  /-- As far as it goes. Data may be left: the connection may be congested, the send quantum used
  up, or the peer unreachable. -/
  | done
  /-- The socket is blocked. -/
  | stalls
  /-- ngtcp2 fails. -/
  | fails
  /-- The socket fails. -/
  | drops
  deriving DecidableEq, Repr

structure FlushOutcome where
  how : FlushEnd
  expiry : Option Nat
  /-- The application sends more, in a callback. -/
  more : Bool := false
  /-- A packet is too big for the path, and a close is scheduled. -/
  closes : Bool := false
  /-- The last send has found that the network has changed, and migrated the connection. -/
  migrates : Bool := false
  deriving DecidableEq, Repr

/-- What `ngtcp2_conn_read_pkt` returns. -/
inductive ReadOutcome where
  | ok (expiry : Option Nat) | draining | error
  deriving DecidableEq, Repr

namespace WakeConn

def packetIoReady (c : WakeConn) : WakeConn := { c with trigger := c.trigger.map fun _ => true }

def schedulePacketRetransmit (ts : Nat) (c : WakeConn) : WakeConn :=
  { c with timer := some (c.expiry.map (retransmitTime ts)) }

/-- Data is queued, or a stream is finished, closed or resumed. -/
def send (c : WakeConn) : WakeConn := { c with unflushed := true }.packetIoReady

/-- `handle_conn_packet`; a connection without events is closing or draining. -/
def handleConnPacket (read : ReadOutcome) (c : WakeConn) : WakeConn :=
  if c.trigger = none || c.dead then c
  else match read with
    | .ok expiry => { c with expiry := expiry }.send
    | .draining => { c with ending := true }
    | .error => { c with dead := true, ending := true }

/-- Packets are written in a flush. -/
def written (out : FlushOutcome) (c : WakeConn) : WakeConn :=
  let c := { c with
    expiry := out.expiry, unflushed := false, migrated := out.migrates,
    ending := c.ending || out.closes }
  if out.more then c.send else c

/-- What a flush does to its connection. -/
def flushed (out : FlushOutcome) (c : WakeConn) : WakeConn :=
  match out.how with
  | .done => c.written out
  | .stalls => { c.written out with unflushed := true }
  | .fails => { c.written out with dead := true, ending := true }
  | .drops => { c.written out with ending := true }

/-- Stalled packets are sent again. The arguments are as for a flush. -/
def resent (expiry : Option Nat) (migrates closes : Bool) (c : WakeConn) : WakeConn :=
  { c with
    expiry := expiry, migrated := c.migrated || migrates, ending := c.ending || closes }

end WakeConn

namespace WakeEndpoint

def set (i : Nat) (c : WakeConn) (s : WakeEndpoint) : WakeEndpoint :=
  { s with conns := Function.update s.conns i (some c) }

def waitForSendStall (i : Nat) (c : WakeConn) (s : WakeEndpoint) : WakeConn × WakeEndpoint :=
  if s.owner = some i || c.waitingOnStall then (c, s)
  else ({ c with waitingOnStall := true }, { s with waiters := s.waiters ++ [i] })

/-- `flush_packets`, and what it returns. -/
def flushPackets (i : Nat) (out : FlushOutcome) (c : WakeConn) (s : WakeEndpoint) :
    Bool × WakeConn × WakeEndpoint :=
  if c.dead then (true, c, s)
  else if s.stalled then (false, s.waitForSendStall i c)
  else match out.how with
    | .stalls => (false, c.flushed out, { s with stalled := true, owner := some i })
    | _ => (true, c.flushed out, s)

def onPacketIoReady (i : Nat) (out : FlushOutcome) (c : WakeConn) (s : WakeEndpoint) :
    WakeEndpoint :=
  if c.dead then s.set i c
  else
    let (sent, c, s) := s.flushPackets i out c
    if !sent || c.timer = none then s.set i c
    else s.set i (c.schedulePacketRetransmit s.now)

/-- The callback of the timer. `expired` is what ngtcp2 returns for it. -/
def onExpiry (i : Nat) (expired : ReadOutcome) (out : FlushOutcome) (c : WakeConn)
    (s : WakeEndpoint) : WakeEndpoint :=
  let c := { c with timer := some none }
  if c.dead then s.set i c
  else match expired with
    | .ok expiry => s.onPacketIoReady i out { c with expiry := expiry, unflushed := true }
    | _ => s.set i { c with dead := true, ending := true }

/-- `halt_events` -/
def haltEvents (i : Nat) (c : WakeConn) (s : WakeEndpoint) : WakeEndpoint :=
  { s.set i { c with trigger := none, timer := none, waitingOnStall := false } with
    owner := if s.owner = some i then none else s.owner
    waiters := if c.waitingOnStall then s.waiters.filter (· ≠ i) else s.waiters }

/-- Connection `i` when a stall ends. -/
def woken (s : WakeEndpoint) (i : Nat) (c : WakeConn) : WakeConn :=
  let c := if i ∈ s.waiters then { c with waitingOnStall := false }.packetIoReady else c
  if s.owner = some i then c.packetIoReady else c

/-- The end of `resume_stalled_send`. -/
def clearStall (s : WakeEndpoint) : WakeEndpoint :=
  { s with
    stalled := false
    owner := none
    waiters := []
    conns := fun i => (s.conns i).map (s.woken i) }

/-- What becomes of the stalled packets. They have been `sent` also if the peer is unreachable and
they are lost. -/
inductive Resumed where
  | blocked | sent | drops
  deriving DecidableEq, Repr

/-- `resume_stalled_send` -/
def resumeStalledSend (resumed : Resumed) (expiry : Option Nat) (migrates closes : Bool)
    (s : WakeEndpoint) : WakeEndpoint :=
  match s.owner with
  | none => s.clearStall
  | some i =>
    match s.conns i with
    | none => s.clearStall
    | some c =>
      if c.dead then s.clearStall
      else match resumed with
        | .blocked => s.set i (c.resent expiry migrates closes)
        | .sent => (s.set i (c.resent expiry migrates closes)).clearStall
        | .drops => (s.set i (c.resent expiry migrates true)).clearStall

inductive Op where
  | makeConn (i : Nat) (expiry : Option Nat)
  | send (i : Nat)
  | packet (i : Nat) (read : ReadOutcome)
  /-- The connection is migrated by `network_changed`. -/
  | networkChanged (i : Nat) (expiry : Option Nat)
  | ioReady (i : Nat) (out : FlushOutcome)
  | expired (i : Nat) (expired : ReadOutcome) (out : FlushOutcome)
  | writeable (resumed : Resumed) (expiry : Option Nat) (migrates closes : Bool)
  /-- A close or a drop is scheduled. -/
  | schedule (i : Nat)
  /-- A job ends the connection. -/
  | halt (i : Nat)
  | tick (ns : Nat)
  deriving DecidableEq, Repr

/-- A function of a connection that is there. -/
def onConn (i : Nat) (f : WakeConn → WakeEndpoint) (s : WakeEndpoint) :
    Except Fault WakeEndpoint :=
  match s.conns i with
  | none => .error .nullPointer
  | some c => .ok (f c)

def Enabled (s : WakeEndpoint) : Op → Prop
  | .makeConn i _ => s.conns i = none
  | .send i | .packet i _ | .networkChanged i _ | .schedule i | .halt i => s.conns i ≠ none
  | .ioReady i _ => ∃ c, s.conns i = some c ∧ c.trigger = some true
  | .expired i _ _ => ∃ c t, s.conns i = some c ∧ c.timer = some (some t) ∧ t ≤ s.now
  | .writeable _ _ _ _ => s.stalled = true
  | .tick _ => True

def step (s : WakeEndpoint) : Op → Except Fault WakeEndpoint
  | .makeConn i expiry => .ok (s.set i (WakeConn.send { expiry := expiry }))
  | .send i => s.onConn i fun c => s.set i c.send
  | .packet i read => s.onConn i fun c => s.set i (c.handleConnPacket read)
  | .networkChanged i expiry => s.onConn i fun c =>
    s.set i { c with expiry := expiry, unflushed := true, migrated := true }
  | .ioReady i out => s.onConn i fun c =>
    s.onPacketIoReady i out { c with trigger := some false }
  | .expired i expired out => s.onConn i (s.onExpiry i expired out)
  | .writeable resumed expiry migrates closes =>
    .ok (s.resumeStalledSend resumed expiry migrates closes)
  | .schedule i => s.onConn i fun c => s.set i { c with ending := true }
  | .halt i => s.onConn i fun c => s.haltEvents i c
  | .tick ns => .ok { s with now := s.now + ns }

/-- An endpoint without connections. -/
def machine : Machine WakeEndpoint Op Fault where
  initial s := s = {}
  enabled := Enabled
  step := step

/-! ## The invariant -/

variable {s : WakeEndpoint} {i : Nat} {c : WakeConn}

/-- Nothing has come up since the last flush, which has set the timer for when ngtcp2 expires. -/
def Rests (now : Nat) (c : WakeConn) : Prop :=
  c.unflushed = false ∧ ∃ ts ≤ now, c.timer = some (c.expiry.map (retransmitTime ts))

/-- There is something that leads to a flush. -/
inductive Scheduled (s : WakeEndpoint) (i : Nat) (c : WakeConn) : Prop where
  | active (h : c.trigger = some true)
  | stall (hs : s.stalled = true) (hi : s.owner = some i ∨ i ∈ s.waiters)
  | timer (h : Rests s.now c)

/-- The connection can still send, and has flushed since it was last migrated. -/
structure Live (c : WakeConn) : Prop where
  trigger : c.trigger ≠ none
  ending : c.ending = false
  migrated : c.migrated = false

/-- The fields of a connection that go together. -/
structure Sound (waiters : List Nat) (i : Nat) (c : WakeConn) : Prop where
  dead : c.dead = true → c.ending = true
  timer : c.timer = none ↔ c.trigger = none
  waiting : c.waitingOnStall = true → i ∈ waiters

/-- All connections of which `awake` holds are scheduled. -/
structure Inv (awake : Nat → Prop) (s : WakeEndpoint) : Prop where
  clear : s.stalled = false → s.owner = none ∧ s.waiters = []
  sound : ∀ i c, s.conns i = some c → Sound s.waiters i c
  scheduled : ∀ i c, awake i → s.conns i = some c → Live c → Scheduled s i c

theorem set_conns (i : Nat) (c : WakeConn) (s : WakeEndpoint) (j : Nat) :
    (s.set i c).conns j = if j = i then some c else s.conns j := by
  simp [set, Function.update_apply]

/-- One connection changes. -/
theorem Inv.set {awake : Nat → Prop} (h : s.Inv awake) (hothers : ∀ j, j ≠ i → awake j)
    (hsound : Sound s.waiters i c) (hc : Live c → Scheduled s i c) :
    (s.set i c).Inv fun _ => True := by
  refine ⟨h.clear, fun j d hd => ?_, fun j d _ hd hlive => ?_⟩
  · rw [set_conns] at hd
    split_ifs at hd with hj
    · cases hd
      exact hj ▸ hsound
    · exact h.sound j d hd
  · rw [set_conns] at hd
    have hsched : Scheduled s j d := by
      split_ifs at hd with hj
      · cases hd
        exact hj ▸ hc hlive
      · exact h.scheduled j d (hothers j hj) hd hlive
    cases hsched with
    | active hact => exact .active hact
    | stall hs hi => exact .stall hs hi
    | timer hrests => exact .timer hrests

theorem Inv.others (h : s.Inv fun _ => True) (i : Nat) : s.Inv (· ≠ i) :=
  ⟨h.clear, h.sound, fun j d _ => h.scheduled j d trivial⟩

/-- A connection that is there changes and is scheduled. -/
theorem Inv.change (h : s.Inv fun _ => True) (hsound : Sound s.waiters i c)
    (hc : Live c → Scheduled s i c) : (s.set i c).Inv fun _ => True :=
  h.set (fun _ _ => trivial) hsound hc

theorem Sound.packetIoReady {waiters : List Nat} (h : Sound waiters i c) :
    Sound waiters i c.packetIoReady :=
  ⟨h.dead, by simp [WakeConn.packetIoReady, h.timer], h.waiting⟩

theorem Sound.send {waiters : List Nat} (h : Sound waiters i c) : Sound waiters i c.send :=
  Sound.packetIoReady ⟨h.dead, h.timer, h.waiting⟩

theorem packetIoReady_active (h : c.packetIoReady.trigger ≠ none) :
    c.packetIoReady.trigger = some true := by
  cases htrigger : c.trigger with
  | none => simp [WakeConn.packetIoReady, htrigger] at h
  | some active => simp [WakeConn.packetIoReady, htrigger]

theorem Live.send (h : Live c.send) : Scheduled s i c.send :=
  .active (packetIoReady_active h.trigger)

theorem Sound.written {waiters : List Nat} (h : Sound waiters i c) (out : FlushOutcome) :
    Sound waiters i (c.written out) := by
  have hbase : Sound waiters i { c with
      expiry := out.expiry, unflushed := false, migrated := out.migrates,
      ending := c.ending || out.closes } :=
    ⟨fun hdead => by simp [h.dead hdead], h.timer, h.waiting⟩
  unfold WakeConn.written
  split_ifs
  · exact hbase.send
  · exact hbase

theorem Sound.flushed {waiters : List Nat} (h : Sound waiters i c) (out : FlushOutcome) :
    Sound waiters i (c.flushed out) := by
  have hwritten := h.written out
  unfold WakeConn.flushed
  cases out.how with
  | done => exact hwritten
  | stalls => exact ⟨hwritten.dead, hwritten.timer, hwritten.waiting⟩
  | fails => exact ⟨fun _ => rfl, hwritten.timer, hwritten.waiting⟩
  | drops => exact ⟨fun _ => rfl, hwritten.timer, hwritten.waiting⟩

theorem timer_flushed (out : FlushOutcome) (c : WakeConn) : (c.flushed out).timer = c.timer := by
  have hwritten : (c.written out).timer = c.timer := by
    unfold WakeConn.written
    split_ifs <;> rfl
  unfold WakeConn.flushed
  cases out.how <;> exact hwritten

/-- After a flush that goes to its end, either the application has sent more, or nothing is left
but to set the timer. -/
theorem scheduled_flushed {out : FlushOutcome} (hhow : out.how ≠ .stalls)
    (hlive : Live ((c.flushed out).schedulePacketRetransmit s.now)) :
    Scheduled s i ((c.flushed out).schedulePacketRetransmit s.now) := by
  have htrigger := hlive.trigger
  have hending := hlive.ending
  unfold WakeConn.flushed at *
  cases hend : out.how with
  | done =>
    simp only [hend, WakeConn.written] at htrigger ⊢
    split_ifs at htrigger ⊢
    · exact .active (packetIoReady_active htrigger)
    · exact .timer ⟨rfl, s.now, le_rfl, rfl⟩
  | stalls => exact absurd hend hhow
  | fails => simp [hend, WakeConn.schedulePacketRetransmit] at hending
  | drops => simp [hend, WakeConn.schedulePacketRetransmit] at hending

/-- A flush schedules its connection, whatever comes of it. -/
theorem Inv.onPacketIoReady (h : s.Inv (· ≠ i)) (hsound : Sound s.waiters i c)
    (htrigger : c.trigger ≠ none) (out : FlushOutcome) :
    (s.onPacketIoReady i out c).Inv fun _ => True := by
  unfold WakeEndpoint.onPacketIoReady
  split_ifs with hdead
  · refine h.set (fun _ hj => hj) hsound fun hlive => ?_
    exact absurd ((hsound.dead hdead).symm.trans hlive.ending) (by simp)
  unfold flushPackets
  rw [if_neg hdead]
  by_cases hstalled : s.stalled = true
  · -- the flush is skipped
    rw [if_pos hstalled]
    simp only [Bool.not_false, Bool.true_or, if_true]
    unfold waitForSendStall
    split_ifs with hknown
    · refine h.set (fun _ hj => hj) hsound fun _ => .stall hstalled ?_
      simp only [Bool.or_eq_true, decide_eq_true_eq] at hknown
      exact hknown.imp_right hsound.waiting
    · have hwaits : Inv (· ≠ i) { s with waiters := s.waiters ++ [i] } := by
        refine ⟨fun hclear => absurd (hstalled.symm.trans hclear) (by simp), ?_, ?_⟩
        · intro j d hd
          have hj := h.sound j d hd
          exact ⟨hj.dead, hj.timer, fun hw => List.mem_append_left _ (hj.waiting hw)⟩
        · intro j d hj hd hlive
          cases h.scheduled j d hj hd hlive with
          | active hact => exact .active hact
          | stall hs hi => exact .stall hs (hi.imp_right (List.mem_append_left _))
          | timer hrests => exact .timer hrests
      exact hwaits.set (fun _ hj => hj) ⟨hsound.dead, hsound.timer, fun _ => by simp⟩
        fun _ => .stall hstalled (.inr (by simp))
  rw [if_neg hstalled]
  have hflushed := hsound.flushed out
  by_cases hhow : out.how = .stalls
  · have hstall : Inv (· ≠ i) { s with stalled := true, owner := some i } := by
      refine ⟨by simp, h.sound, fun j d hj hd hlive => ?_⟩
      cases h.scheduled j d hj hd hlive with
      | active hact => exact .active hact
      | stall hs hi => exact absurd hs hstalled
      | timer hrests => exact .timer hrests
    rw [hhow]
    exact hstall.set (fun _ hj => hj) hflushed fun _ => .stall rfl (.inl rfl)
  · have htimer : (c.flushed out).timer ≠ none := by
      rw [timer_flushed]
      exact fun hnone => htrigger (hsound.timer.mp hnone)
    have hscheduled : Sound s.waiters i ((c.flushed out).schedulePacketRetransmit s.now) := by
      refine ⟨hflushed.dead, ?_, hflushed.waiting⟩
      simp [WakeConn.schedulePacketRetransmit, ← hflushed.timer, htimer]
    have hset := h.set (fun _ hj => hj) hscheduled (scheduled_flushed hhow)
    cases hend : out.how with
    | stalls => exact absurd hend hhow
    | done | fails | drops => simpa [htimer] using hset

theorem woken_eq (s : WakeEndpoint) (i : Nat) (c : WakeConn) :
    s.woken i c = { c with
      waitingOnStall := c.waitingOnStall && decide (i ∉ s.waiters)
      trigger := if s.owner = some i ∨ i ∈ s.waiters then c.trigger.map fun _ => true
        else c.trigger } := by
  unfold woken WakeConn.packetIoReady
  by_cases hwaits : i ∈ s.waiters <;> by_cases howner : s.owner = some i <;>
    simp [hwaits, howner, Function.comp_def]

/-- The end of a stall wakes all that have waited for it. -/
theorem Inv.clearStall (h : s.Inv fun _ => True) : s.clearStall.Inv fun _ => True := by
  refine ⟨fun _ => ⟨rfl, rfl⟩, fun i d hd => ?_, fun i d _ hd hlive => ?_⟩
  · obtain ⟨c, hc, rfl⟩ := Option.map_eq_some_iff.mp hd
    have hsound := h.sound i c hc
    rw [woken_eq]
    refine ⟨hsound.dead, ?_, fun hwaits => ?_⟩
    · rw [hsound.timer]
      split_ifs <;> simp
    · simp only [Bool.and_eq_true, decide_eq_true_eq] at hwaits
      exact absurd (hsound.waiting hwaits.1) hwaits.2
  · obtain ⟨c, hc, rfl⟩ := Option.map_eq_some_iff.mp hd
    obtain ⟨htrigger, hending, hmigrated⟩ := hlive
    rw [woken_eq] at htrigger hending hmigrated ⊢
    have hlive : Live c := by
      refine ⟨fun hnone => htrigger ?_, hending, hmigrated⟩
      simp [hnone]
    obtain ⟨active, hactive⟩ := Option.ne_none_iff_exists'.mp hlive.trigger
    by_cases hwoken : s.owner = some i ∨ i ∈ s.waiters
    · exact .active (by simp [hwoken, hactive])
    · cases h.scheduled i c trivial hc hlive with
      | active hact => exact .active (by simp [hwoken, hact])
      | stall _ hi => exact absurd hi hwoken
      | timer hrests => exact .timer hrests

theorem Inv.resumeStalledSend (h : s.Inv fun _ => True) (hstalled : s.stalled = true)
    (resumed : Resumed) (expiry : Option Nat) (migrates closes : Bool) :
    (s.resumeStalledSend resumed expiry migrates closes).Inv fun _ => True := by
  unfold WakeEndpoint.resumeStalledSend
  cases howner : s.owner with
  | none => exact h.clearStall
  | some i =>
    dsimp only
    cases hc : s.conns i with
    | none => exact h.clearStall
    | some c =>
      -- whatever the send does to the owner, it owns the stall until that is cleared
      have hresent (closes : Bool) :
          (s.set i (c.resent expiry migrates closes)).Inv fun _ => True := by
        have hsound := h.sound i c hc
        refine h.change ⟨fun hdead => ?_, hsound.timer, hsound.waiting⟩
          fun _ => .stall hstalled (.inl howner)
        simp [WakeConn.resent, hsound.dead hdead]
      dsimp only
      split_ifs
      · exact h.clearStall
      · cases resumed with
        | blocked => exact hresent closes
        | sent => exact (hresent closes).clearStall
        | drops => exact (hresent true).clearStall

theorem Inv.haltEvents (h : s.Inv fun _ => True) (hc : s.conns i = some c) :
    (s.haltEvents i c).Inv fun _ => True := by
  have hkeeps {j : Nat} (hj : j ≠ i) (hmem : j ∈ s.waiters) : j ∈ (s.haltEvents i c).waiters := by
    unfold WakeEndpoint.haltEvents
    dsimp only
    split_ifs
    · exact List.mem_filter.mpr ⟨hmem, by simpa using hj⟩
    · exact hmem
  have hconns (j : Nat) : (s.haltEvents i c).conns j = if j = i then
      some { c with trigger := none, timer := none, waitingOnStall := false } else s.conns j :=
    set_conns i _ s j
  refine ⟨fun hclear => ?_, fun j d hd => ?_, fun j d _ hd hlive => ?_⟩
  · obtain ⟨howner, hwaiters⟩ := h.clear hclear
    simp [WakeEndpoint.haltEvents, howner, hwaiters]
  · rw [hconns] at hd
    split_ifs at hd with hj
    · cases hd
      exact ⟨(h.sound i c hc).dead, by simp, by simp⟩
    · have hsound := h.sound j d hd
      exact ⟨hsound.dead, hsound.timer, fun hwaits => hkeeps hj (hsound.waiting hwaits)⟩
  · rw [hconns] at hd
    split_ifs at hd with hj
    · cases hd
      exact absurd rfl hlive.trigger
    · cases h.scheduled j d trivial hd hlive with
      | active hact => exact .active hact
      | stall hs hi =>
        refine .stall hs (hi.imp (fun howner => ?_) (hkeeps hj))
        simp [WakeEndpoint.haltEvents, howner, hj]
      | timer hrests => exact .timer hrests

theorem Inv.handleConnPacket (h : s.Inv fun _ => True) (hc : s.conns i = some c)
    (read : ReadOutcome) : (s.set i (c.handleConnPacket read)).Inv fun _ => True := by
  have hsound := h.sound i c hc
  unfold WakeConn.handleConnPacket
  split_ifs
  · refine h.change hsound fun hlive => ?_
    exact h.scheduled i c trivial hc hlive
  · cases read with
    | ok expiry => exact h.change (Sound.send ⟨hsound.dead, hsound.timer, hsound.waiting⟩) Live.send
    | draining =>
      refine h.change ⟨fun _ => rfl, hsound.timer, hsound.waiting⟩ fun hlive => ?_
      exact absurd hlive.ending (by simp)
    | error =>
      refine h.change ⟨fun _ => rfl, hsound.timer, hsound.waiting⟩ fun hlive => ?_
      exact absurd hlive.ending (by simp)

theorem Inv.onExpiry (h : s.Inv fun _ => True) (hc : s.conns i = some c)
    (htrigger : c.trigger ≠ none) (expired : ReadOutcome) (out : FlushOutcome) :
    (s.onExpiry i expired out c).Inv fun _ => True := by
  have hsound := h.sound i c hc
  have htimer : some (none : Option Nat) = none ↔ c.trigger = none := by simp [htrigger]
  unfold WakeEndpoint.onExpiry
  dsimp only
  split_ifs with hdead
  · refine h.change ⟨hsound.dead, htimer, hsound.waiting⟩ fun hlive => ?_
    exact absurd ((hsound.dead hdead).symm.trans hlive.ending) (by simp)
  · cases expired with
    | ok expiry =>
      have hready : Sound s.waiters i
          { c with timer := some none, expiry := expiry, unflushed := true } :=
        ⟨hsound.dead, htimer, hsound.waiting⟩
      exact (h.others i).onPacketIoReady hready htrigger out
    | draining | error =>
      refine h.change ⟨fun _ => rfl, htimer, hsound.waiting⟩ fun hlive => ?_
      exact absurd hlive.ending (by simp)

theorem inductive_inv : machine.Inductive (Inv fun _ => True) where
  initial s h := by
    subst h
    exact ⟨fun _ => ⟨rfl, rfl⟩, by simp, by simp⟩
  step s op h he := by
    -- most operations are about a connection that is there
    have hconn {i : Nat} {f : WakeConn → WakeEndpoint} (hi : s.conns i ≠ none)
        (hf : ∀ c, s.conns i = some c → (f c).Inv fun _ => True) :
        ∃ t, s.onConn i f = .ok t ∧ t.Inv fun _ => True := by
      obtain ⟨c, hc⟩ := Option.ne_none_iff_exists'.mp hi
      exact ⟨f c, by simp [onConn, hc], hf c hc⟩
    cases op with
    | makeConn i expiry =>
      refine ⟨_, rfl, h.change (Sound.send ⟨?_, ?_, ?_⟩) Live.send⟩ <;> simp
    | send i => exact hconn he fun c hc => h.change (h.sound i c hc).send Live.send
    | packet i read => exact hconn he fun c hc => h.handleConnPacket hc read
    | networkChanged i expiry =>
      refine hconn he fun c hc => ?_
      have hsound := h.sound i c hc
      refine h.change ⟨hsound.dead, hsound.timer, hsound.waiting⟩ fun hlive => ?_
      exact absurd hlive.migrated (by simp)
    | ioReady i out =>
      obtain ⟨c, hc, htrigger⟩ := he
      refine hconn (by simp [hc]) fun c' hc' => ?_
      obtain rfl : c = c' := Option.some.inj (hc.symm.trans hc')
      have hsound := h.sound i c hc
      have htimer : c.timer ≠ none := by
        intro hnone
        simp [hsound.timer.mp hnone] at htrigger
      have hready : Sound s.waiters i { c with trigger := some false } :=
        ⟨hsound.dead, by simp [htimer], hsound.waiting⟩
      exact (h.others i).onPacketIoReady hready (by simp) out
    | expired i expired out =>
      obtain ⟨c, t, hc, htimer, -⟩ := he
      refine hconn (by simp [hc]) fun c' hc' => ?_
      obtain rfl : c = c' := Option.some.inj (hc.symm.trans hc')
      refine h.onExpiry hc (fun hnone => ?_) expired out
      simp [(h.sound i c hc).timer.mpr hnone] at htimer
    | writeable resumed expiry migrates closes =>
      exact ⟨_, rfl, h.resumeStalledSend he resumed expiry migrates closes⟩
    | schedule i =>
      refine hconn he fun c hc => ?_
      have hsound := h.sound i c hc
      refine h.change ⟨fun _ => rfl, hsound.timer, hsound.waiting⟩ fun hlive => ?_
      exact absurd hlive.ending (by simp)
    | halt i => exact hconn he fun c hc => h.haltEvents hc
    | tick ns =>
      refine ⟨_, rfl, h.clear, h.sound, fun i c _ hc hlive => ?_⟩
      cases h.scheduled i c trivial hc hlive with
      | active hact => exact .active hact
      | stall hs hi => exact .stall hs hi
      | timer hrests =>
        obtain ⟨hflushed, ts, hts, htimer⟩ := hrests
        exact .timer ⟨hflushed, ts, hts.trans (Nat.le_add_right ..), htimer⟩

/-! ## No connection is forgotten -/

/-- The timer never fires before the expiry, and at most a microsecond after it or after the flush
that set it. -/
theorem retransmitTime_bounds (ts expiry : Nat) :
    expiry ≤ retransmitTime ts expiry ∧ retransmitTime ts expiry ≤ max (expiry + 999) ts := by
  unfold retransmitTime
  split_ifs
  · dsimp only
    omega
  · omega

/-- A connection that can send is active, or waits for a stall to end, or nothing has come up since
its last flush, which has set the timer for when ngtcp2 expires, if it does. What that flush left
behind then waits for the timer too. The exceptions are connections that a job is about to end and
those that have been migrated, by `network_changed` or by a send: neither wakes them. -/
theorem never_forgotten (h : machine.Reachable s) (hc : s.conns i = some c) (hlive : Live c) :
    c.trigger = some true ∨ s.stalled = true ∧ (s.owner = some i ∨ i ∈ s.waiters) ∨
      c.unflushed = false ∧ match c.expiry with
        | none => c.timer = some none
        | some e => ∃ t, c.timer = some (some t) ∧ e ≤ t ∧ t ≤ max (e + 999) s.now := by
  cases (inductive_inv.reachable h).scheduled i c trivial hc hlive with
  | active hact => exact .inl hact
  | stall hs hi => exact .inr (.inl ⟨hs, hi⟩)
  | timer hrests =>
    obtain ⟨hflushed, ts, hts, htimer⟩ := hrests
    refine .inr (.inr ⟨hflushed, ?_⟩)
    cases he : c.expiry with
    | none => simpa [he] using htimer
    | some e =>
      obtain ⟨hlower, hupper⟩ := retransmitTime_bounds ts e
      exact ⟨retransmitTime ts e, by simpa [he] using htimer, hlower, by omega⟩

/-- A connection has flushed, and ngtcp2 expires after 1500 nanoseconds. -/
theorem never_forgotten_flushed :
    ∃ s c t, machine.Reachable s ∧ s.conns 0 = some c ∧ Live c ∧ c.timer = some (some t) ∧
      1500 ≤ t ∧ t ≤ 2499 := by
  let c : WakeConn := { expiry := some 1500, timer := some (some 2000) }
  have hmade : machine.Reachable (set 0 (WakeConn.send { expiry := none }) {}) :=
    .step (i := .makeConn 0 none) (.initial rfl) rfl rfl
  have hready : machine.enabled (set 0 (WakeConn.send { expiry := none }) {})
      (.ioReady 0 { how := .done, expiry := some 1500 }) := by
    exact ⟨WakeConn.send { expiry := none }, by simp [set_conns], rfl⟩
  have hflushed : machine.Reachable
      (set 0 c (set 0 (WakeConn.send { expiry := none }) {})) :=
    hmade.step hready (by simp [machine, step, onConn, set_conns]; rfl)
  have hlive : Live c := ⟨by simp [c], rfl, rfl⟩
  rcases never_forgotten hflushed (i := 0) (by simp [set_conns]) hlive with hact | ⟨hs, -⟩ | hrests
  · simp [c] at hact
  · simp [set] at hs
  · obtain ⟨t, htimer, hbounds⟩ := hrests.2
    exact ⟨_, c, t, hflushed, by simp [set_conns], hlive, htimer, by simpa [set] using hbounds⟩

end WakeEndpoint

end Libquic
