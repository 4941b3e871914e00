import Libquic.Connection.Turn
import Libquic.Endpoint.Stall
import Libquic.Stream.Ledger

/-!
# The FIN of a stream

A stream's FIN goes to ngtcp2 with the last of its data. `_send_fin` says that the
application wants it sent, `_sent_fin` that ngtcp2 has taken it. Here the endpoint's
connections have streams that are opened, used and closed between the turns of any flushes,
while ngtcp2 takes any part of what it is offered. Early data that is rejected is left out.
-/
namespace Libquic

open Lib

/-! ## One stream -/

/-- What the application and the peer's acks do to a stream between flushes. -/
inductive AppOp where
  | send (connOpen : Bool) (buffer : Buffer) (reaction : Reaction)
  | sendFin
  | withdraw (connOpen : Bool) (keepAlive : KeepAlive) (reaction : Reaction)
  | acknowledge (bytes : Nat)
  deriving DecidableEq, Repr

namespace Stream

def appStep (s : Stream) : AppOp → Except Fault Stream
  | .send connOpen buffer reaction => .ok (s.sendImpl connOpen (react connOpen reaction) buffer)
  | .sendFin => .ok { s with sendFin := true }
  | .withdraw connOpen keepAlive reaction => do
    let (_, s) ← s.withdraw (react connOpen reaction) keepAlive
    return s
  | .acknowledge bytes => s.acknowledge bytes

/-- Only bytes that were written are acked. -/
def AppEnabled (s : Stream) : AppOp → Prop
  | .acknowledge bytes => bytes ≤ s.unackedSize
  | _ => True

/-- A stream from its creation on, before it takes part in flushes. -/
def appMachine : Machine Stream AppOp Fault where
  initial s := SendState.Initial ⟨s, {}⟩ ∧ s.sendFin = false ∧ s.sentFin = false
  enabled := AppEnabled
  step := appStep

/-- The send buffer is in order, and a stream that has sent its FIN has nothing left to send. -/
structure FinSound (s : Stream) : Prop where
  agrees : ∃ ledger, SendState.Agrees ⟨s, ledger⟩
  fin : s.sentFin = true → s.sendFin = true ∧ s.unsentSize = 0

/-- What `t` keeps of an earlier state `s` of the same stream. -/
structure Evolves (s t : Stream) : Prop where
  closed : s.sendFin = true → t.sendFin = true ∧ t.accepted = s.accepted
  sent : s.sentFin = true → t.sentFin = true

theorem Evolves.refl (s : Stream) : Evolves s s := ⟨fun h => ⟨h, rfl⟩, fun h => h⟩

variable {s t : Stream}

theorem FinSound.sendable (h : s.FinSound) : s.Sendable := by
  obtain ⟨ledger, released, held, hsplit⟩ := h.agrees
  exact ⟨hsplit.point, hsplit.filledBuffers, hsplit.unsent⟩

theorem FinSound.unsentBytes (h : s.FinSound) (hs : s.sentFin = true) : s.unsentBytes = [] := by
  have hlen := h.sendable.unsent
  rw [(h.fin hs).2] at hlen
  exact List.eq_nil_of_length_eq_zero hlen.symm

/-- An operation that leaves the FIN flags alone and queues nothing after `send_fin`. -/
theorem FinSound.evolve (h : s.FinSound) (hagrees : ∃ ledger, SendState.Agrees ⟨t, ledger⟩)
    (hflags : t.SameFlags s)
    (hfin : s.sendFin = true → t.unsentSize ≤ s.unsentSize ∧ t.accepted = s.accepted) :
    t.FinSound ∧ Evolves s t ∧ t.sentFin = s.sentFin := by
  refine ⟨⟨hagrees, fun hs => ?_⟩, ⟨fun hs => ⟨hflags.1.trans hs, (hfin hs).2⟩,
    fun hs => hflags.2.trans hs⟩, hflags.2⟩
  obtain ⟨hsend, hzero⟩ := h.fin (hflags.2.symm.trans hs)
  have := (hfin hsend).1
  exact ⟨hflags.1.trans hsend, by omega⟩

theorem FinSound.appStep (h : s.FinSound) {op : AppOp} (hen : s.AppEnabled op) :
    ∃ t, s.appStep op = .ok t ∧ t.FinSound ∧ Evolves s t ∧ t.sentFin = s.sentFin := by
  obtain ⟨ledger, hagrees⟩ := h.agrees
  cases op with
  | send connOpen buffer reaction =>
    refine ⟨_, rfl, h.evolve ⟨_, SendState.send_agrees hagrees buffer reaction⟩
      (sendImpl_sameFlags (react_onlySends connOpen reaction) ..) fun hfin => ?_⟩
    simp [sendImpl, accepts, hfin]
  | sendFin =>
    obtain ⟨released, held, hsplit⟩ := hagrees
    exact ⟨_, rfl, ⟨⟨ledger, released, held, hsplit.congr rfl⟩, fun hs => ⟨rfl, (h.fin hs).2⟩⟩,
      ⟨fun _ => ⟨rfl, rfl⟩, fun hs => hs⟩, rfl⟩
  | withdraw connOpen keepAlive reaction =>
    obtain ⟨y, hy, hagrees⟩ : ∃ y, SendState.step connOpen ⟨s, ledger⟩
        (.withdraw keepAlive reaction) = .ok y ∧ y.Agrees :=
      SendState.withdraw_agrees hagrees keepAlive reaction
    obtain ⟨⟨found, t⟩, ht, hy⟩ := bind_ok hy
    obtain rfl := Except.ok.inj hy
    have hok : s.withdraw (react connOpen reaction) keepAlive = .ok (found, t) := ht
    exact ⟨t, by simp [Stream.appStep, hok], h.evolve ⟨_, hagrees⟩
      (withdraw_sameFlags (react_onlySends connOpen reaction) hok)
      fun hfin => withdraw_of_sendFin hfin hok⟩
  | acknowledge bytes =>
    obtain ⟨y, hy, hagrees⟩ := SendState.acknowledge_agrees true hagrees hen
    obtain ⟨t, ht, hy⟩ := bind_ok hy
    obtain rfl := Except.ok.inj hy
    obtain ⟨hflags, hunsent, -, -, haccepted⟩ := acknowledge_keeps ht
    exact ⟨t, ht, h.evolve ⟨_, hagrees⟩ hflags fun _ => ⟨hunsent.le, haccepted⟩⟩

/-- A stream that has not taken part in a flush has not sent its FIN. -/
theorem waiting_inductive :
    appMachine.Inductive fun s => s.FinSound ∧ s.sentFin = false where
  initial s := by
    rintro ⟨hinit, -, hsent⟩
    exact ⟨⟨⟨{}, hinit.agrees⟩, fun hs => absurd (hsent.symm.trans hs) (by simp)⟩, hsent⟩
  step s op h hen := by
    obtain ⟨t, hok, ht, -, hsame⟩ := h.1.appStep hen
    exact ⟨t, hok, ht, hsame.trans h.2⟩

/-- The FIN is offered only with all that is left. -/
theorem FinSound.offer_fin (h : s.FinSound) {o : Offer} (ho : s.offer = .ok (some o)) :
    o.fin = true ↔ s.sendFin = true ∧ o.data = s.unsentBytes := by
  obtain ⟨hp, hf, hu⟩ := h.sendable
  rcases offer_spec hp hf hu with ⟨hno, -⟩ | ⟨o', ho', -, -, hiff⟩
  · simp [ho] at hno
  · obtain rfl : o = o' := by simpa [ho] using ho'
    exact hiff

/-- A turn in a flush. ngtcp2 is given the FIN with all that is left, so if it takes all it
is offered, nothing is left. -/
theorem FinSound.turn (h : s.FinSound) {o : Offer} {n : Nat} {reaction : Reaction}
    (hoffer : s.offer = .ok (some o)) (hn : n ≤ o.data.length)
    (ht : (s.noteFin o n).wrote (react true reaction) n = .ok t) :
    t.FinSound ∧ Evolves s t ∧ (s.sendFin = true → t.userBuffers = s.userBuffers) ∧
      (t.sentFin = true ↔ s.sentFin = true ∨ o.fin = true ∧ n = o.data.length) := by
  obtain ⟨ledger, released, held, hsplit⟩ := h.agrees
  have hunsent : s.unsentSize = s.unsentBytes.length := hsplit.unsent
  have hflags := wrote_sameFlags (react_onlySends true reaction) ht
  have hagrees : ∃ ledger, SendState.Agrees ⟨t, ledger⟩ := by
    have hnoted : SendState.Agrees ⟨s.noteFin o n, ledger⟩ := ⟨released, held, hsplit.congr rfl⟩
    obtain ⟨more, hpend⟩ := pending_of_offer hoffer
    have hsame : (s.noteFin o n).pending maxPmtudUdpPayload = .ok (o.bufs, more) := hpend
    have hen : SendState.Enabled ⟨s.noteFin o n, ledger⟩
        (.write maxPmtudUdpPayload n reaction) := by
      simp only [SendState.Enabled, SendState.offered, hsame]
      exact hn
    obtain ⟨y, hy, hagrees⟩ : ∃ y, SendState.step true ⟨s.noteFin o n, ledger⟩
        (.write maxPmtudUdpPayload n reaction) = .ok y ∧ y.Agrees :=
      SendState.write_agrees hnoted hen
    simp only [SendState.step, hsame, ht, ok_bind, pure_eq_ok] at hy
    obtain rfl := Except.ok.inj hy
    exact ⟨_, hagrees⟩
  have hclosed (hs : s.sendFin = true) := wrote_of_sendFin (s := s.noteFin o n) hs ht
  have hnoted : t.sentFin = true ↔ s.sentFin = true ∨ o.fin = true ∧ n = o.data.length := by
    rw [hflags.2]
    simp [noteFin]
  refine ⟨⟨hagrees, fun hs => ?_⟩, ⟨fun hs => ⟨hflags.1.trans hs, (hclosed hs).2.2⟩, fun hs => ?_⟩,
    fun hs => (hclosed hs).2.1, hnoted⟩
  · rcases hnoted.mp hs with hsent | ⟨ho, rfl⟩
    · obtain ⟨hsend, hzero⟩ := h.fin hsent
      have : t.unsentSize + n ≤ s.unsentSize := (hclosed hsend).1
      exact ⟨hflags.1.trans hsend, by omega⟩
    · obtain ⟨hsend, hdata⟩ := (h.offer_fin hoffer).mp ho
      have : t.unsentSize + o.data.length ≤ s.unsentSize := (hclosed hsend).1
      rw [hdata, ← hunsent] at this
      exact ⟨hflags.1.trans hsend, by omega⟩
  · exact hnoted.mpr (.inl hs)

/-- The stream after `o` was offered, and `w` says what was taken of it. -/
structure Given {Addr : Type} (s : Stream) (w : Write Addr) (o : Offer) (t : Stream) : Prop where
  sound : t.FinSound
  evolves : Evolves s t
  buffers : s.sendFin = true → t.userBuffers = s.userBuffers
  sentFin : t.sentFin = true ↔ s.sentFin = true ∨ o.fin = true ∧ w.ndatalen = some o.data.length

theorem FinSound.given {Addr : Type} (h : s.FinSound) {w : Write Addr} {o : Offer}
    (ho : s.offer = .ok (some o)) (hn : w.ndatalen.getD 0 ≤ o.data.length)
    (ht : Flush.Accounts w s o t) : s.Given w o t := by
  rcases ht with ⟨hnone, rfl⟩ | ⟨n, hsome, ht⟩
  · exact ⟨h, .refl t, fun _ => rfl, by simp [hnone]⟩
  · obtain ⟨hsound, hev, hbufs, hsent⟩ := h.turn ho (by simpa [hsome] using hn) ht
    exact ⟨hsound, hev, hbufs, by simpa [hsome] using hsent⟩

end Stream

/-! ## The endpoint -/

namespace SendEndpoint

variable {Addr δ : Type}

/-- What can happen to the streams of an endpoint: besides the operations of the endpoint
itself, streams are opened, with whatever was done to them while they waited for that, and
used and closed. -/
inductive FinOp (Addr δ : Type) where
  | endpoint (op : Op Addr δ)
  | openStream (i : Nat) (id : Int) (s : Stream)
  | app (i : Nat) (id : Int) (op : AppOp)
  | closeStream (i : Nat) (id : Int)
  | setDgrams (i : Nat) (dgrams : Option δ)

def stream (x : SendEndpoint Addr δ) (i : Nat) (id : Int) : Option Stream :=
  (x.flush i none).lookup id

def setStreams (x : SendEndpoint Addr δ) (i : Nat) (streams : List (Int × Stream)) :
    SendEndpoint Addr δ := x.modify i ({ · with streams := streams })

theorem stream_congr {x y : SendEndpoint Addr δ} {i : Nat}
    (h : (y.conns i).streams = (x.conns i).streams) (id : Int) : y.stream i id = x.stream i id :=
  Flush.lookup_congr h id

/-- `_streams` is ordered by id. -/
def insertStream (id : Int) (s : Stream) (streams : List (Int × Stream)) : List (Int × Stream) :=
  streams.takeWhile (·.1 < id) ++ (id, s) :: streams.dropWhile (·.1 < id)

def finStep [Inhabited Addr] (Q : DgramChannel δ) (x : SendEndpoint Addr δ) :
    FinOp Addr δ → Except Fault (SendEndpoint Addr δ)
  | .endpoint op => x.step Q op
  | .openStream i id s => .ok (x.setStreams i (insertStream id s (x.conns i).streams))
  | .app i id op =>
    match x.stream i id with
    | none => .ok x
    | some s => do
      let t ← s.appStep op
      return x.setStreams i ((x.flush i none).setStream id t).conn.streams
  | .closeStream i id => .ok (x.setStreams i ((x.conns i).streams.filter (·.1 ≠ id)))
  | .setDgrams i dgrams => .ok (x.modify i ({ · with dgrams := dgrams }))

/-- As for the endpoint's machine; moreover ngtcp2 takes data only with a packet or when it
asks for more, stream ids are not reused, and no stream goes away in the middle of a flush. -/
def FinEnabled (x : SendEndpoint Addr δ) : FinOp Addr δ → Prop
  | .endpoint (.change ..) => False
  | .endpoint (.iterate w) =>
    x.Enabled (.iterate w) ∧ (w.ndatalen ≠ none → w.nwrite.takes = true)
  | .endpoint op => x.Enabled op
  | .openStream i id s => Stream.appMachine.Reachable s ∧ id ∉ (x.conns i).streams.map Prod.fst
  | .app i id op => ∀ s, x.stream i id = some s → s.AppEnabled op
  | .closeStream _ _ => x.building = none
  | .setDgrams i dgrams => x.building ≠ none → (x.conns i).dgrams ≠ none → dgrams ≠ none

/-- The machine, with a further condition on its inputs. -/
def finMachine [Inhabited Addr] (Q : DgramChannel δ)
    (given : SendEndpoint Addr δ → FinOp Addr δ → Prop) :
    Machine (SendEndpoint Addr δ) (FinOp Addr δ) Fault where
  initial x := (machine Q fun _ _ => True).initial x ∧ ∀ i, (x.conns i).streams = []
  enabled x op := x.FinEnabled op ∧ given x op
  step := finStep Q

/-! ## What a step does -/

/-- The streams that the flush in progress, if there is one, has still to come to. -/
def queuedIds (x : SendEndpoint Addr δ) : List Int :=
  (x.building.map fun b => streamIds b.2.channels).getD []

/-- What one step does to the streams and to the flush in progress. -/
inductive FinChange (x : SendEndpoint Addr δ) : FinOp Addr δ → SendEndpoint Addr δ → Prop where
  /-- Nothing that matters here. -/
  | still {op : FinOp Addr δ} {y : SendEndpoint Addr δ}
      (streams : ∀ i, (y.conns i).streams = (x.conns i).streams)
      (building : y.building = x.building) : FinChange x op y
  | started {i mid n : Nat} {y : SendEndpoint Addr δ} (waiting : Bool)
      (streams : ∀ j, (y.conns j).streams = (x.conns j).streams)
      (building : y.building = some (i,
        { channels := selectChannels (x.conns i).streams waiting mid, maxStreamPackets := n })) :
      FinChange x (.endpoint (.flushPackets i mid n)) y
  | passed {i : Nat} {f : FlushLoop} {w : Write Addr} {z : Flush Addr δ}
      (building : x.building = some (i, f)) (streams : z.conn.streams = (x.conns i).streams)
      (left : z.queuedIds.Subperm x.queuedIds) :
      FinChange x (.endpoint (.iterate w)) (x.afterFlush i z)
  | offered {i : Nat} {f : FlushLoop} {w : Write Addr} {z : Flush Addr δ} {id : Int}
      {s t : Stream} {o : Offer} {rest : List Int} (building : x.building = some (i, f))
      (offers : (x.flush i (some f)).Offers id s o)
      (offered : Flush.Offered w (x.flush i (some f)) z id s o t rest) (given : s.Given w o t) :
      FinChange x (.endpoint (.iterate w)) (x.afterFlush i z)
  | opened {i : Nat} {id : Int} {s : Stream} (fresh : id ∉ (x.conns i).streams.map Prod.fst)
      (sound : s.FinSound) (sentFin : s.sentFin = false) : FinChange x (.openStream i id s)
        (x.setStreams i (insertStream id s (x.conns i).streams))
  | app {i : Nat} {id : Int} {op : AppOp} {s t : Stream} (stream : x.stream i id = some s)
      (sound : t.FinSound) (evolves : s.Evolves t) (sentFin : t.sentFin = s.sentFin) :
      FinChange x (.app i id op)
        (x.setStreams i ((x.flush i none).setStream id t).conn.streams)
  | closed {i : Nat} {id : Int} (building : x.building = none) : FinChange x (.closeStream i id)
        (x.setStreams i ((x.conns i).streams.filter (·.1 ≠ id)))

/-- The streams and the flush in progress stay as they are. -/
def Still (x y : SendEndpoint Addr δ) : Prop :=
  (∀ i, (y.conns i).streams = (x.conns i).streams) ∧ y.building = x.building

/-- One connection changes, and its streams do not. -/
theorem Still.update {x y : SendEndpoint Addr δ} {i : Nat} {c : FlushConn Addr δ}
    (hconns : y.conns = Function.update x.conns i c) (hc : c.streams = (x.conns i).streams)
    (hb : y.building = x.building) : Still x y := by
  refine ⟨fun j => ?_, hb⟩
  rw [hconns]
  by_cases hj : j = i
  · subst hj
    simpa using hc
  · simp [hj]

theorem still_waitForSendStall (x : SendEndpoint Addr δ) (i : Nat) :
    Still x (x.waitForSendStall i) := by
  unfold waitForSendStall
  split_ifs
  · exact ⟨fun _ => rfl, rfl⟩
  · exact .update rfl rfl rfl

theorem still_forgetSendStall (x : SendEndpoint Addr δ) (i : Nat) :
    Still x (x.forgetSendStall i) := by
  unfold forgetSendStall
  dsimp only
  split_ifs
  · exact .update rfl rfl rfl
  · exact ⟨fun _ => rfl, rfl⟩
  · exact .update rfl rfl rfl
  · exact ⟨fun _ => rfl, rfl⟩

theorem still_clearStall (x : SendEndpoint Addr δ) : Still x x.clearStall := by
  refine ⟨fun i => ?_, rfl⟩
  unfold clearStall
  dsimp only
  split_ifs <;> rfl

theorem still_resumeStalledSend [Inhabited Addr] {transport : Transport}
    {x y : SendEndpoint Addr δ} (h : x.resumeStalledSend transport = .ok y) : Still x y := by
  unfold resumeStalledSend at h
  split at h
  · cases h
  split at h
  · cases h
    exact still_clearStall x
  split at h
  · cases h
    exact still_clearStall x
  obtain ⟨⟨result, batch⟩, -, h⟩ := bind_ok h
  dsimp only at h
  split_ifs at h
  · cases h
    exact ⟨fun _ => rfl, rfl⟩
  · cases h
    obtain ⟨hstreams, hb⟩ := still_clearStall
      { x with batch := batch, handed := x.handed ++ x.batch.handing _ }
    exact ⟨hstreams, hb⟩

/-- A flush is put off, or it starts with the streams that have not sent their FIN. -/
theorem flushPackets_cases {Q : DgramChannel δ} {i mid n : Nat} {x y : SendEndpoint Addr δ}
    (h : x.flushPackets Q i mid n = .ok y) :
    Still x y ∨ (∀ j, (y.conns j).streams = (x.conns j).streams) ∧
      ∃ waiting, y.building = some (i,
        { channels := selectChannels (x.conns i).streams waiting mid, maxStreamPackets := n }) := by
  unfold flushPackets at h
  dsimp only at h
  split_ifs at h
  · cases h
    exact .inl ⟨fun _ => rfl, rfl⟩
  · cases h
    exact .inl (still_waitForSendStall x i)
  · cases h
    exact .inr ⟨fun _ => rfl, _, rfl⟩

theorem finStep_change [Inhabited Addr] {Q : DgramChannel δ} {x y : SendEndpoint Addr δ}
    {op : FinOp Addr δ} (hsound : ∀ i, ∀ entry ∈ (x.conns i).streams, entry.2.FinSound)
    (hen : x.FinEnabled op) (h : x.finStep Q op = .ok y) : FinChange x op y := by
  cases op with
  | endpoint op =>
    cases op with
    | change i streams dgrams => exact hen.elim
    | flushPackets i mid n =>
      rcases flushPackets_cases h with hstill | ⟨hstreams, waiting, hb⟩
      · exact .still hstill.1 hstill.2
      · exact .started waiting hstreams hb
    | iterate w =>
      obtain ⟨⟨-, i, f, hb, -, htaken⟩, hw⟩ := hen
      simp only [finStep, step, hb] at h
      obtain ⟨z, hz, h⟩ := bind_ok h
      cases h
      have hqueue : (x.flush i (some f)).queuedIds = x.queuedIds := by
        simp [queuedIds, Flush.queuedIds, flush, hb]
      cases Flush.iterate_turn hz hw with
      | other hstreams hleft => exact .passed hb hstreams (hqueue ▸ hleft)
      | offered hoffers hoffered =>
        have hs := hsound i _ (Flush.lookup_mem hoffers.stream)
        exact .offered hb hoffers hoffered
          (hs.given hoffers.offer (hoffers.offered_eq ▸ htaken) hoffered.accounts)
    | resumeStalledSend transport =>
      have hstill := still_resumeStalledSend h
      exact .still hstill.1 hstill.2
    | setRoute i path nat64Path =>
      cases h
      have hstill : Still x (x.modify i ({ · with path := path, nat64Path := nat64Path })) :=
        .update rfl rfl rfl
      exact .still hstill.1 hstill.2
    | halt i =>
      cases h
      have hstill := still_forgetSendStall x i
      exact .still hstill.1 hstill.2
  | openStream i id s =>
    cases h
    have hs := Stream.waiting_inductive.reachable hen.1
    exact .opened hen.2 hs.1 hs.2
  | app i id op =>
    cases hs : x.stream i id with
    | none =>
      simp only [finStep, hs] at h
      cases h
      exact .still (fun _ => rfl) rfl
    | some s =>
      obtain ⟨t, ht, hts, hev, hsame⟩ := (hsound i _ (Flush.lookup_mem hs)).appStep (hen s hs)
      simp only [finStep, hs, ht, ok_bind] at h
      cases h
      exact .app hs hts hev hsame
  | closeStream i id =>
    cases h
    exact .closed hen
  | setDgrams i dgrams =>
    cases h
    have hstill : Still x (x.modify i ({ · with dgrams := dgrams })) := .update rfl rfl rfl
    exact .still hstill.1 hstill.2

/-! ## The invariant -/

/-- The streams of a connection. -/
structure StreamsSound (streams : List (Int × Stream)) : Prop where
  each : ∀ entry ∈ streams, entry.2.FinSound
  ids : (streams.map Prod.fst).Nodup

structure FinInv (x : SendEndpoint Addr δ) : Prop where
  base : x.Inv False
  streams : ∀ i, StreamsSound (x.conns i).streams
  queue : x.queuedIds.Nodup

section Streams
variable {streams : List (Int × Stream)} {id id' : Int} {s t : Stream}

theorem map_fst_setStream (x : Flush Addr δ) (id : Int) (t : Stream) :
    (x.setStream id t).conn.streams.map Prod.fst = x.conn.streams.map Prod.fst := by
  simp only [Flush.setStream, List.map_map]
  apply List.map_congr_left
  grind

theorem StreamsSound.setStream {x : Flush Addr δ} (h : StreamsSound x.conn.streams)
    (ht : t.FinSound) : StreamsSound (x.setStream id t).conn.streams := by
  refine ⟨fun entry hmem => ?_, (map_fst_setStream x id t).symm ▸ h.ids⟩
  obtain ⟨entry', hmem', rfl⟩ := List.mem_map.mp hmem
  split
  · exact ht
  · exact h.each entry' hmem'

theorem insertStream_perm (id : Int) (s : Stream) (streams : List (Int × Stream)) :
    (insertStream id s streams).Perm ((id, s) :: streams) := by
  refine List.perm_middle.trans ?_
  rw [List.takeWhile_append_dropWhile]

theorem StreamsSound.insertStream (h : StreamsSound streams) (hs : s.FinSound)
    (hid : id ∉ streams.map Prod.fst) : StreamsSound (insertStream id s streams) := by
  have hperm := insertStream_perm id s streams
  refine ⟨fun entry hmem => ?_, ?_⟩
  · rcases List.mem_cons.mp (hperm.mem_iff.mp hmem) with rfl | hmem
    · exact hs
    · exact h.each entry hmem
  · rw [(hperm.map Prod.fst).nodup_iff]
    exact List.nodup_cons.mpr ⟨hid, h.ids⟩

theorem StreamsSound.filter (h : StreamsSound streams) (p : Int × Stream → Bool) :
    StreamsSound (streams.filter p) :=
  ⟨fun entry hmem => h.each entry (List.mem_of_mem_filter hmem),
    ((List.filter_sublist (p := p)).map Prod.fst).nodup h.ids⟩

end Streams

/-- Connection `i`'s streams become `l`, and no others change. -/
theorem forall_setStreams {P : Nat → List (Int × Stream) → Prop} {x : SendEndpoint Addr δ}
    {i : Nat} {l : List (Int × Stream)} (hx : ∀ j, P j (x.conns j).streams) (hl : P i l) :
    ∀ j, P j ((x.setStreams i l).conns j).streams :=
  (Function.forall_update_iff x.conns fun j c => P j c.streams).mpr ⟨hl, fun j _ => hx j⟩

theorem forall_afterFlush {P : Nat → List (Int × Stream) → Prop} {x : SendEndpoint Addr δ}
    {i : Nat} {z : Flush Addr δ} (hx : ∀ j, P j (x.conns j).streams) (hz : P i z.conn.streams) :
    ∀ j, P j ((x.afterFlush i z).conns j).streams :=
  (Function.forall_update_iff x.conns fun j c => P j c.streams).mpr ⟨hz, fun j _ => hx j⟩

variable {x y : SendEndpoint Addr δ} {op : FinOp Addr δ}

theorem FinChange.streams (h : FinChange x op y) (hs : ∀ i, StreamsSound (x.conns i).streams) :
    ∀ i, StreamsSound (y.conns i).streams := by
  cases h with
  | still hstreams _ => exact fun i => hstreams i ▸ hs i
  | started waiting hstreams _ => exact fun i => hstreams i ▸ hs i
  | passed _ hstreams _ =>
    exact forall_afterFlush (P := fun _ => StreamsSound) hs (hstreams ▸ hs _)
  | @offered i f w z id s t o rest _ _ hoffered hgiven =>
    refine forall_afterFlush (P := fun _ => StreamsSound) hs ?_
    rw [hoffered.streams]
    exact StreamsSound.setStream (x := x.flush i (some f)) (hs i) hgiven.sound
  | opened hfresh hsound _ =>
    exact forall_setStreams (P := fun _ => StreamsSound) hs ((hs _).insertStream hsound hfresh)
  | @app i id op s t _ hsound _ _ =>
    exact forall_setStreams (P := fun _ => StreamsSound) hs
      (StreamsSound.setStream (x := x.flush i none) (hs i) hsound)
  | closed _ => exact forall_setStreams (P := fun _ => StreamsSound) hs ((hs _).filter _)

theorem nodup_of_subperm {l l' : List Int} (h : l.Subperm l') (hl : l'.Nodup) : l.Nodup := by
  obtain ⟨l'', hperm, hsub⟩ := h
  exact hperm.nodup_iff.mp (hsub.nodup hl)

theorem queuedIds_afterFlush (x : SendEndpoint Addr δ) (i : Nat) (z : Flush Addr δ) :
    (x.afterFlush i z).queuedIds = z.queuedIds := by
  cases hz : z.loop <;> simp [queuedIds, afterFlush, Flush.queuedIds, hz]

theorem queuedIds_flush {i : Nat} {f : FlushLoop} (hb : x.building = some (i, f)) :
    (x.flush i (some f)).queuedIds = x.queuedIds := by
  simp [queuedIds, Flush.queuedIds, flush, hb]

theorem streamIds_selectChannels (streams : List (Int × Stream)) (waiting : Bool) (mid : Nat) :
    (streamIds (selectChannels streams waiting mid)).Subperm (streams.map Prod.fst) := by
  have hpart (part : List (Int × Stream)) :
      streamIds ((part.filter fun entry => !entry.2.sentFin).map fun entry => .stream entry.1) =
        (part.filter fun entry => !entry.2.sentFin).map Prod.fst := by
    simp [streamIds, List.filterMap_map]
  have hdgrams : streamIds (if waiting then [.datagrams] else []) = [] := by
    cases waiting <;> rfl
  have happ (l l' : List Channel) : streamIds (l ++ l') = streamIds l ++ streamIds l' :=
    List.filterMap_append
  simp only [selectChannels, happ, hpart, hdgrams, streamIds_pseudo, streamIds_nil,
    List.append_nil, ← List.map_append]
  have hsplit : ((streams.take mid).filter fun entry => !entry.2.sentFin) ++
      ((streams.drop mid).filter fun entry => !entry.2.sentFin) =
      streams.filter fun entry => !entry.2.sentFin := by
    rw [← List.filter_append, List.take_append_drop]
  have hsub := (List.filter_sublist (l := streams)
    (p := fun entry => !entry.2.sentFin)).map Prod.fst
  rw [← hsplit] at hsub
  exact (List.perm_append_comm.map Prod.fst).subperm.trans hsub.subperm

theorem FinChange.queue (h : FinChange x op y) (hs : ∀ i, StreamsSound (x.conns i).streams)
    (hq : x.queuedIds.Nodup) : y.queuedIds.Nodup := by
  cases h with
  | still _ hb => exact (show y.queuedIds = x.queuedIds by simp [queuedIds, hb]) ▸ hq
  | @started i mid n y waiting hstreams hb =>
    have hids : y.queuedIds = streamIds (selectChannels (x.conns i).streams waiting mid) := by
      simp [queuedIds, hb]
    rw [hids]
    exact nodup_of_subperm (streamIds_selectChannels ..) (hs i).ids
  | passed _ _ hleft =>
    rw [queuedIds_afterFlush]
    exact nodup_of_subperm hleft hq
  | offered hb _ hoffered _ =>
    rw [queuedIds_afterFlush]
    have hqueue := (queuedIds_flush hb).symm.trans hoffered.queue
    rcases hoffered.left with hleft | ⟨-, -, hperm⟩
    · exact nodup_of_subperm hleft (List.nodup_cons.mp (hqueue ▸ hq)).2
    · rw [hperm.nodup_iff, queuedIds_flush hb]
      exact hq
  | opened _ _ _ => exact hq
  | app _ _ _ _ => exact hq
  | closed _ => exact hq

/-! ## Each stream in a step -/

/-- How the stream `id` of connection `i` has become `t`. -/
inductive StreamChange (x : SendEndpoint Addr δ) (op : FinOp Addr δ) (i : Nat) (id : Int)
    (t : Stream) : Prop where
  | same (stream : x.stream i id = some t)
  | opened (none : x.stream i id = none) (sentFin : t.sentFin = false)
  | app {s : Stream} (stream : x.stream i id = some s) (evolves : s.Evolves t)
      (sentFin : t.sentFin = s.sentFin)
  | offered {f : FlushLoop} {w : Write Addr} {s : Stream} {o : Offer}
      (input : op = .endpoint (.iterate w)) (building : x.building = some (i, f))
      (offers : (x.flush i (some f)).Offers id s o) (given : s.Given w o t)

def lookupIn (streams : List (Int × Stream)) (id : Int) : Option Stream :=
  (streams.find? (·.1 = id)).map Prod.snd

theorem lookupIn_insertStream {id id' : Int} (h : id' ≠ id) (s : Stream)
    (streams : List (Int × Stream)) :
    lookupIn (insertStream id s streams) id' = lookupIn streams id' := by
  have hskip (l l' : List (Int × Stream)) :
      lookupIn (l ++ (id, s) :: l') id' = lookupIn (l ++ l') id' := by
    simp [lookupIn, List.find?_append, h.symm]
  rw [insertStream, hskip, List.takeWhile_append_dropWhile]

theorem lookupIn_eq_none {id : Int} {streams : List (Int × Stream)}
    (h : id ∉ streams.map Prod.fst) : lookupIn streams id = none := by
  simp only [lookupIn, Option.map_eq_none_iff, List.find?_eq_none, decide_eq_true_eq]
  rintro entry hmem rfl
  exact h (List.mem_map_of_mem hmem)

theorem lookupIn_filter (streams : List (Int × Stream)) (id id' : Int) :
    lookupIn (streams.filter (·.1 ≠ id')) id = if id = id' then none else lookupIn streams id := by
  simp only [lookupIn, List.find?_filter]
  split
  · simp only [Option.map_eq_none_iff, List.find?_eq_none]
    grind
  · have hsame : (fun entry : Int × Stream => decide (decide (entry.1 ≠ id') = true ∧
        decide (entry.1 = id) = true)) = fun entry => decide (entry.1 = id) := by
      funext entry
      grind
    rw [hsame]

theorem FinChange.stream (h : FinChange x op y) {i : Nat} {id : Int} {t : Stream}
    (ht : y.stream i id = some t) : StreamChange x op i id t := by
  let P (j : Nat) (l : List (Int × Stream)) : Prop :=
    ∀ id t, lookupIn l id = some t → StreamChange x op j id t
  have hx (j : Nat) : P j (x.conns j).streams := fun id t ht => .same ht
  cases h with
  | still hstreams _ => exact .same ((stream_congr (hstreams i) id).symm.trans ht)
  | started waiting hstreams _ => exact .same ((stream_congr (hstreams i) id).symm.trans ht)
  | passed _ hstreams _ => exact forall_afterFlush hx (hstreams ▸ hx _) i id t ht
  | @offered j f w z id' s t' o rest hb hoffers hoffered hgiven =>
    refine forall_afterFlush hx ?_ i id t ht
    intro id t ht
    have hl : ((x.flush j (some f)).setStream id' t').lookup id = some t := by
      rw [← ht, hoffered.streams]
      rfl
    rcases Flush.lookup_setStream_cases hl with ⟨rfl, rfl⟩ | ⟨-, hs⟩
    · exact .offered rfl hb hoffers hgiven
    · exact .same hs
  | @opened j id' s hfresh _ hsent =>
    refine forall_setStreams hx ?_ i id t ht
    intro id t ht
    by_cases hid : id = id'
    · subst hid
      have hmem := Flush.lookup_mem
        (x := { x.flush j none with conn.streams := insertStream id s (x.conns j).streams }) ht
      rcases List.mem_cons.mp ((insertStream_perm id s _).mem_iff.mp hmem) with heq | hmem
      · cases heq
        exact .opened (lookupIn_eq_none hfresh) hsent
      · exact (hfresh (List.mem_map_of_mem hmem)).elim
    · exact .same ((lookupIn_insertStream hid s _).symm.trans ht)
  | @app j id' op s t' hs _ hev hsame =>
    refine forall_setStreams hx ?_ i id t ht
    intro id t ht
    have hl : ((x.flush j none).setStream id' t').lookup id = some t := ht
    rcases Flush.lookup_setStream_cases hl with ⟨rfl, rfl⟩ | ⟨-, hs'⟩
    · exact .app hs hev hsame
    · exact .same hs'
  | @closed j id' _ =>
    refine forall_setStreams hx ?_ i id t ht
    intro id t ht
    rw [lookupIn_filter] at ht
    split at ht
    · cases ht
    · exact .same ht

theorem enabled_of_finEnabled {op : Op Addr δ} (h : x.FinEnabled (.endpoint op)) :
    x.Enabled op := by
  cases op with
  | change i streams dgrams => exact h.elim
  | iterate w => exact h.1
  | _ => exact h

/-- Connection `i`'s streams become others that include those in the flush. -/
theorem Inv.setStreams (h : x.Inv False) {i : Nat} {l : List (Int × Stream)}
    (hl : StreamsSound l)
    (hch : x.building ≠ none → (x.conns i).streams.map Prod.fst ⊆ l.map Prod.fst) :
    (x.setStreams i l).Inv False := by
  refine h.modify i (fun entry hmem => (hl.each entry hmem).sendable) False.elim ?_
  intro hb channels hchannels
  refine hchannels.congr (fun id hid => ?_) fun hd => hd
  simpa using hch hb (by simpa using hid)

theorem FinChange.evolves (h : FinChange x op y) {i : Nat} {id : Int} {s t : Stream}
    (hs : x.stream i id = some s) (ht : y.stream i id = some t) : s.Evolves t := by
  cases h.stream ht with
  | same hs' =>
    obtain rfl : s = t := by simpa [hs] using hs'
    exact .refl s
  | opened hnone _ => simp [hs] at hnone
  | app hs' hev _ =>
    cases hs.symm.trans hs'
    exact hev
  | offered _ _ hoffers hgiven =>
    cases hs.symm.trans hoffers.stream
    exact hgiven.evolves

section Machine
variable [Inhabited Addr] (Q : DgramChannel δ)

/-- No operation faults, and every one keeps the invariant. -/
theorem FinInv.step (h : x.FinInv) (hen : x.FinEnabled op) :
    ∃ y, x.finStep Q op = .ok y ∧ y.FinInv := by
  have hbase : ∃ y, x.finStep Q op = .ok y ∧ y.Inv False := by
    cases op with
    | endpoint op =>
      have hind : (machine Q fun _ (_ : Op Addr δ) => True).Inductive (Inv False) :=
        inv_inductive Q fun hk => hk.elim
      exact hind.step x op h.base ⟨enabled_of_finEnabled hen, trivial⟩
    | openStream i id s =>
      have hs := (Stream.waiting_inductive.reachable hen.1).1
      refine ⟨_, rfl, h.base.setStreams ((h.streams i).insertStream hs hen.2) fun _ => ?_⟩
      intro id' hid'
      rw [((insertStream_perm id s _).map Prod.fst).mem_iff]
      exact List.mem_cons_of_mem _ hid'
    | app i id op =>
      cases hs : x.stream i id with
      | none => exact ⟨x, by simp [finStep, hs], h.base⟩
      | some s =>
        obtain ⟨t, ht, hts, -⟩ :=
          ((h.streams i).each _ (Flush.lookup_mem hs)).appStep (hen s hs)
        refine ⟨_, by simp only [finStep, hs, ht, ok_bind]; rfl, h.base.setStreams
          (StreamsSound.setStream (x := x.flush i none) (h.streams i) hts) fun _ => ?_⟩
        rw [map_fst_setStream]
        exact List.Subset.refl _
    | closeStream i id =>
      exact ⟨_, rfl, h.base.setStreams ((h.streams i).filter _) fun hb => (hb hen).elim⟩
    | setDgrams i dgrams =>
      refine ⟨_, rfl, h.base.modify i (h.base.streams i) False.elim fun hb l hl => ?_⟩
      exact hl.congr (fun _ he => he) (hen hb)
  obtain ⟨y, hok, hy⟩ := hbase
  have hchange := finStep_change (fun i => (h.streams i).each) hen hok
  exact ⟨y, hok, hy, hchange.streams h.streams, hchange.queue h.streams h.queue⟩

theorem finInv_inductive (given : SendEndpoint Addr δ → FinOp Addr δ → Prop) :
    (finMachine Q given).Inductive FinInv where
  initial x := by
    rintro ⟨hinit, hnone⟩
    have hind : (machine Q fun _ (_ : Op Addr δ) => True).Inductive (Inv False) :=
      inv_inductive Q fun hk => hk.elim
    refine ⟨hind.initial x hinit, fun i => ?_, ?_⟩
    · rw [hnone i]
      exact ⟨by simp, by simp⟩
    · simp [queuedIds, hinit.1]
  step x op h hen := h.step Q hen.1

end Machine

/-! ## Streams whose FIN was taken -/

/-- The flush in progress offers `o`, data of the stream `id` of connection `i`, next. -/
def Offers (x : SendEndpoint Addr δ) (i : Nat) (id : Int) (s : Stream) (o : Offer) : Prop :=
  ∃ f, x.building = some (i, f) ∧ (x.flush i (some f)).Offers id s o

/-- If ngtcp2 takes a stream's FIN and completes a packet with it, the stream holds no buffers
that wait for acks, or it is the last packet of the flush. -/
def Released [Inhabited Addr] (x : SendEndpoint Addr δ) : FinOp Addr δ → Prop
  | .endpoint (.iterate w) => ∀ i f id s o data ecn, x.building = some (i, f) →
      (x.flush i (some f)).Offers id s o → o.fin = true → w.ndatalen = some o.data.length →
      w.nwrite = .packet data ecn →
      s.userBuffers = [] ∨ (x.flush i (some f)).LastPacket f data ⟨ecn, w.path⟩ w.transport
  | _ => True

/-- No stream that the flush in progress has still to come to has sent its FIN. -/
def Spared (x : SendEndpoint Addr δ) : Prop :=
  ∀ i f, x.building = some (i, f) → ∀ id ∈ x.queuedIds, ∀ s, x.stream i id = some s →
    s.sentFin = false

theorem Spared.change (hsp : x.Spared) (h : FinChange x op y) (hb : y.building = x.building)
    (hop : ∀ w, op ≠ .endpoint (.iterate w)) : y.Spared := by
  intro i f hf id hid t ht
  have hf' : x.building = some (i, f) := hb ▸ hf
  have hid' : id ∈ x.queuedIds := by simpa [queuedIds, hb] using hid
  cases h.stream ht with
  | same hs => exact hsp i f hf' id hid' t hs
  | opened _ hsent => exact hsent
  | app hs _ hsame => exact hsame.trans (hsp i f hf' id hid' _ hs)
  | offered hinput _ _ _ => exact (hop _ hinput).elim

theorem building_afterFlush {i j : Nat} {f : FlushLoop} {z : Flush Addr δ}
    (h : (x.afterFlush i z).building = some (j, f)) : j = i ∧ z.loop = some f := by
  obtain ⟨g, hg, hpair⟩ := Option.map_eq_some_iff.mp h
  obtain ⟨rfl, rfl⟩ := Prod.mk.inj hpair
  exact ⟨rfl, hg⟩

theorem stream_afterFlush (x : SendEndpoint Addr δ) (i : Nat) (z : Flush Addr δ) (id : Int) :
    (x.afterFlush i z).stream i id = z.lookup id :=
  Flush.lookup_congr (by simp [flush, afterFlush]) id

theorem mem_queuedIds_of_offered {i : Nat} {f : FlushLoop} {w : Write Addr} {z : Flush Addr δ}
    {id id' : Int} {s t : Stream} {o : Offer} {rest : List Int} (hb : x.building = some (i, f))
    (hoffered : Flush.Offered w (x.flush i (some f)) z id s o t rest) (hid : id' ∈ z.queuedIds) :
    id' ∈ x.queuedIds := by
  rw [← queuedIds_flush hb]
  rcases hoffered.left with hleft | ⟨-, -, hperm⟩
  · rw [hoffered.queue]
    exact List.mem_cons_of_mem _ (hleft.subset hid)
  · exact hperm.mem_iff.mp hid

/-- The stream whose turn it was is put back with its FIN unsent, unless it holds on to buffers. -/
theorem Spared.own_turn (hsp : x.Spared) (hinv : x.FinInv) {i : Nat} {f : FlushLoop}
    {w : Write Addr} {z : Flush Addr δ} {id : Int} {s t : Stream} {o : Offer} {rest : List Int}
    (hb : x.building = some (i, f)) (hoffers : (x.flush i (some f)).Offers id s o)
    (hoffered : Flush.Offered w (x.flush i (some f)) z id s o t rest) (hgiven : s.Given w o t)
    (hrel : o.fin = true → w.ndatalen = some o.data.length →
      ∀ data ecn, w.nwrite = .packet data ecn → s.userBuffers = [])
    (hid : id ∈ z.queuedIds) : t.sentFin = false := by
  have hqueue := (queuedIds_flush hb).symm.trans hoffered.queue
  have hnotin : id ∉ rest := (List.nodup_cons.mp (hqueue ▸ hinv.queue)).1
  have hfront : s.sentFin = false := by
    refine hsp i f hb id ?_ s hoffers.stream
    rw [hqueue]
    exact List.mem_cons_self
  by_contra hsent
  have htaken : o.fin = true ∧ w.ndatalen = some o.data.length := by
    simpa [hfront] using hgiven.sentFin.mp (by simpa using hsent)
  have hsendFin := (((hinv.streams i).each _ (Flush.lookup_mem hoffers.stream)).offer_fin
    hoffers.offer).mp htaken.1
  rcases hoffered.left with hleft | ⟨⟨data, ecn, hpacket⟩, hbufs, -⟩
  · exact hnotin (hleft.subset hid)
  · exact hbufs ((hgiven.buffers hsendFin.1).trans (hrel htaken.1 htaken.2 data ecn hpacket))

/-- A turn in which the FIN is taken may put the stream back only if it is released. -/
theorem FinChange.spared [Inhabited Addr] {Q : DgramChannel δ} (h : FinChange x op y)
    (hinv : x.FinInv) (hok : x.finStep Q op = .ok y) (hrel : x.Released op) (hsp : x.Spared) :
    y.Spared := by
  have hchange := h
  cases h with
  | still hstreams hb =>
    intro i f hf id hid t ht
    have hs := (stream_congr (hstreams i) id).symm.trans ht
    exact hsp i f (hb ▸ hf) id (by simpa [queuedIds, hb] using hid) t hs
  | @started i' mid n y waiting hstreams hb =>
    intro i f hf id hid t ht
    obtain ⟨rfl, rfl⟩ : i' = i ∧ _ = f := by simpa [hb] using hf
    have hs := (stream_congr (hstreams i') id).symm.trans ht
    have hmem : .stream id ∈ selectChannels (x.conns i').streams waiting mid :=
      mem_streamIds.mp (by simpa [queuedIds, hb] using hid)
    obtain ⟨s, hs', hsent⟩ := mem_selectChannels.mp hmem
    have hpair := List.inj_on_of_nodup_map (hinv.streams i').ids (Flush.lookup_mem hs) hs' rfl
    cases hpair
    exact hsent
  | @passed i' f' w z hb hstreams hleft =>
    intro i f hf id hid t ht
    obtain ⟨rfl, -⟩ := building_afterFlush hf
    rw [stream_afterFlush] at ht
    rw [queuedIds_afterFlush] at hid
    have hs := (Flush.lookup_congr (x := x.flush i none) hstreams id).symm.trans ht
    exact hsp i f' hb id (hleft.subset hid) t hs
  | @offered i' f' w z id' s t' o rest hb hoffers hoffered hgiven =>
    intro i f hf id hid t ht
    obtain ⟨rfl, hloop⟩ := building_afterFlush hf
    rw [stream_afterFlush, Flush.lookup_congr hoffered.streams] at ht
    rw [queuedIds_afterFlush] at hid
    rcases Flush.lookup_setStream_cases ht with ⟨rfl, rfl⟩ | ⟨hne, hs⟩
    · refine hsp.own_turn hinv hb hoffers hoffered hgiven (fun hfin hn data ecn hpacket => ?_) hid
      refine (hrel i f' id s o data ecn hb hoffers hfin hn hpacket).resolve_right fun hlast => ?_
      simp only [finStep, SendEndpoint.step, hb] at hok
      obtain ⟨z', hz', hok⟩ := bind_ok hok
      have hsame : x.afterFlush i z' = x.afterFlush i z := Except.ok.inj hok
      have hover := (Flush.iterate_over hz' rfl hoffers hpacket).mpr hlast
      have hnone : (x.afterFlush i z').building = none := by simp [afterFlush, hover]
      exact absurd (hf.symm.trans (hsame ▸ hnone)) (by simp)
    · exact hsp i f' hb id (mem_queuedIds_of_offered hb hoffered hid) t hs
  | opened _ _ _ => exact hsp.change hchange rfl (by simp)
  | app _ _ _ _ => exact hsp.change hchange rfl (by simp)
  | closed _ => exact hsp.change hchange rfl (by simp)

/-- Otherwise it does put the stream back. -/
theorem FinInv.requeued [Inhabited Addr] {Q : DgramChannel δ} (hinv : x.FinInv)
    (hen : x.FinEnabled op) (hrel : ¬ x.Released op) :
    ∃ y, x.finStep Q op = .ok y ∧ ∃ i f id t, y.building = some (i, f) ∧
      .stream id ∈ f.channels ∧ y.stream i id = some t ∧ t.sentFin = true := by
  obtain ⟨y, hok, -⟩ := hinv.step Q hen
  refine ⟨y, hok, ?_⟩
  cases op with
  | endpoint op =>
    cases op with
    | iterate w =>
      simp only [Released, not_forall, not_or] at hrel
      obtain ⟨i, f, id, s, o, data, ecn, hb, hoffers, hfin, hall, hpacket, hbufs, hmore⟩ := hrel
      obtain ⟨⟨-, i', f', hb', -, htaken⟩, hw⟩ := hen
      obtain ⟨rfl, rfl⟩ : i = i' ∧ f = f' := by simpa [hb] using hb'
      simp only [finStep, SendEndpoint.step, hb] at hok
      obtain ⟨z, hz, hok⟩ := bind_ok hok
      cases hok
      obtain ⟨t, rest, hoffered⟩ := Flush.iterate_offered hz hoffers hw
      have hsound := (hinv.streams i).each _ (Flush.lookup_mem hoffers.stream)
      have hgiven := hsound.given hoffers.offer (hoffers.offered_eq ▸ htaken) hoffered.accounts
      have hkept := hgiven.buffers ((hsound.offer_fin hoffers.offer).mp hfin).1
      have hloop : z.loop ≠ none := mt (Flush.iterate_over hz rfl hoffers hpacket).mp hmore
      obtain ⟨g, hg⟩ := Option.ne_none_iff_exists'.mp hloop
      have hagain := hoffered.again ⟨data, ecn, hpacket⟩ (hkept ▸ hbufs) hloop
      rw [Flush.queuedIds_of_loop hg] at hagain
      refine ⟨i, g, id, t, by simp [afterFlush, hg], mem_streamIds.mp hagain, ?_,
        hgiven.sentFin.mpr (.inr ⟨hfin, hall⟩)⟩
      rw [stream_afterFlush, Flush.lookup_congr hoffered.streams]
      exact Flush.lookup_setStream_self hoffers.stream t
    | _ => exact (hrel trivial).elim
  | _ => exact (hrel trivial).elim

theorem spared_inductive [Inhabited Addr] (Q : DgramChannel δ) :
    (finMachine Q Released).Inductive
      fun x : SendEndpoint Addr δ => x.FinInv ∧ x.Spared where
  initial x hinit := by
    refine ⟨(finInv_inductive Q Released).initial x hinit, fun i f hf => ?_⟩
    exact absurd (hinit.1.1.symm.trans hf) (by simp)
  step x op h hen := by
    obtain ⟨y, hok, hy⟩ := h.1.step Q hen.1
    have hchange := finStep_change (fun i => (h.1.streams i).each) hen.1 hok
    exact ⟨y, hok, hy, hchange.spared h.1 hok hen.2 h.2⟩

/-- In every run the FIN is offered only with all that is queued, `_sent_fin` is set only when
all of it has been taken, nothing is queued after `send_fin`, and nothing is unsent after
`_sent_fin`. In runs in which every stream is released when its FIN is taken, it is not offered
again; where it is not released, it is put back into the flush. -/
theorem fin_after_data [Inhabited Addr] (Q : DgramChannel δ) :
    (∀ x : SendEndpoint Addr δ, (finMachine Q fun _ _ => True).Reachable x →
      (∀ i id s o, x.Offers i id s o → o.fin = true →
        s.sendFin = true ∧ o.data = s.unsentBytes) ∧
      (∀ op y, x.FinEnabled op → x.finStep Q op = .ok y → ∀ i id s t, x.stream i id = some s →
        y.stream i id = some t →
          (s.sentFin = false → t.sentFin = true → t.unsentBytes = []) ∧
          (s.sendFin = true → t.sendFin = true ∧ t.accepted = s.accepted) ∧
          (s.sentFin = true → t.sentFin = true)) ∧
      (∀ i id s, x.stream i id = some s → s.sentFin = true → s.unsentSize = 0) ∧
      ∀ op, x.FinEnabled op → ∃ y, x.finStep Q op = .ok y) ∧
    ∀ x : SendEndpoint Addr δ, (finMachine Q Released).Reachable x →
      (∀ i id s o, x.Offers i id s o → s.sentFin = false) ∧
      ∀ op, x.FinEnabled op → ¬ x.Released op →
        ∃ y, x.finStep Q op = .ok y ∧ ∃ i f id t, y.building = some (i, f) ∧
          .stream id ∈ f.channels ∧ y.stream i id = some t ∧ t.sentFin = true := by
  refine ⟨fun x hx => ?_, fun x hx => ?_⟩
  · have hinv := (finInv_inductive Q fun _ _ => True).reachable hx
    have hsound {i : Nat} {id : Int} {s : Stream} (hs : x.stream i id = some s) : s.FinSound :=
      (hinv.streams i).each _ (Flush.lookup_mem hs)
    refine ⟨?_, ?_, fun i id s hs hsent => ((hsound hs).fin hsent).2, fun op hen => ?_⟩
    · rintro i id s o ⟨f, hb, hoffers⟩ hfin
      exact ((hsound hoffers.stream).offer_fin hoffers.offer).mp hfin
    · intro op y hen hok i id s t hs ht
      have hchange := finStep_change (fun i => (hinv.streams i).each) hen hok
      have hyt : t.FinSound := (hchange.streams hinv.streams i).each _ (Flush.lookup_mem ht)
      have hev := hchange.evolves hs ht
      exact ⟨fun _ hsent => hyt.unsentBytes hsent, hev.closed, hev.sent⟩
    · obtain ⟨y, hok, -⟩ := hinv.step Q hen
      exact ⟨y, hok⟩
  · obtain ⟨hinv, hsp⟩ := (spared_inductive Q).reachable hx
    refine ⟨?_, fun op hen hrel => hinv.requeued hen hrel⟩
    rintro i id s o ⟨f, hb, hoffers⟩
    obtain ⟨g, rest, hg, -, hch⟩ := hoffers.turn
    refine hsp i f hb _ ?_ s hoffers.stream
    have : f = g := by simpa [flush] using hg
    simp [queuedIds, hb, this, hch]

/-! ## A stream of one byte -/

/-- One byte has been sent on the stream, and then `send_fin` called. -/
def byteAndFin : Stream :=
  { userBuffers := [⟨[1], none⟩], unsentSize := 1, sendFin := true, accepted := [⟨[1], none⟩] }

theorem byteAndFin_reachable : Stream.appMachine.Reachable byteAndFin := by
  have hinit : Stream.appMachine.Reachable {} := .initial ⟨by simp [SendState.Initial], rfl, rfl⟩
  have hsent := hinit.step (i := AppOp.send true ⟨[1], none⟩ .done) trivial rfl
  exact hsent.step (i := AppOp.sendFin) trivial rfl

/-- A flush that is about to offer that stream's byte. -/
theorem byteAndFin_offered (given : SendEndpoint Nat Unit → FinOp Nat Unit → Prop)
    (hgiven : ∀ x op, (∀ w, op ≠ .endpoint (.iterate w)) → given x op) :
    ∃ x, (finMachine noDgrams given).Reachable x ∧
      x.building = some (0, { channels := [.stream 0, .pseudo], maxStreamPackets := 2 }) ∧
      x.stream 0 0 = some byteAndFin ∧ x.batch.Holding [] ∧ x.batch.stalled = false := by
  have hstart : (finMachine noDgrams given).Reachable (start ⟨0, 1⟩) := by
    refine .initial ⟨⟨rfl, rfl, rfl, rfl, rfl, start_holding _, fun i => ⟨rfl, ?_⟩⟩,
      fun i => rfl⟩
    simp [start]
  have hopen := hstart.step (i := FinOp.openStream 0 0 byteAndFin)
    ⟨⟨byteAndFin_reachable, by simp [start]⟩, hgiven _ _ (by simp)⟩ rfl
  have hflush := hopen.step (i := FinOp.endpoint (.flushPackets 0 0 2))
    ⟨rfl, hgiven _ _ (by simp)⟩ rfl
  exact ⟨_, hflush, rfl, rfl, start_holding (δ := Unit) ⟨0, 1⟩, rfl⟩

/-- ngtcp2 takes one byte, and completes a packet. -/
def byteTaken : Write Nat where
  nwrite := .packet [7] 0
  path := ⟨0, 1⟩
  ndatalen := some 1
  transport := openSocket

/-- The stream after that. -/
def byteAndFinSent : Stream :=
  { byteAndFin with
    unsentSize := 0, unackedSize := 1, sentFin := true, currentBufferIndex := 1 }

/-- The byte and the FIN are taken with a packet, and the flush goes on to the same stream. -/
theorem byteAndFin_taken {x : SendEndpoint Nat Unit}
    (hb : x.building = some (0, { channels := [.stream 0, .pseudo], maxStreamPackets := 2 }))
    (hs : x.stream 0 0 = some byteAndFin) (hhold : x.batch.Holding []) :
    x.FinEnabled (.endpoint (.iterate byteTaken)) ∧
      ∃ y, x.finStep noDgrams (.endpoint (.iterate byteTaken)) = .ok y ∧
        y.stream 0 0 = some byteAndFinSent ∧ y.Offers 0 0 byteAndFinSent ⟨[], true⟩ := by
  let f : FlushLoop := { channels := [.stream 0, .pseudo], maxStreamPackets := 2 }
  have hlookup : (x.flush 0 (some f)).lookup 0 = some byteAndFin := hs
  have hoffer : byteAndFin.offer = .ok (some ⟨[[1]], true⟩) := rfl
  have hoffers : (x.flush 0 (some f)).Offers 0 byteAndFin ⟨[[1]], true⟩ :=
    ⟨⟨f, [.pseudo], rfl, rfl, rfl⟩, hlookup, hoffer⟩
  refine ⟨⟨⟨trivial, 0, f, hb, rfl, ?_⟩, fun _ => rfl⟩, ?_⟩
  · rw [hoffers.offered_eq]
    exact le_rfl
  obtain ⟨b, hpush, hb', -⟩ := hhold.push (by simp [maxBatch]) (List.cons_ne_nil 7 [])
    (by simp [maxPmtudUdpPayload]) ⟨0, ⟨0, 1⟩⟩
  let z := { x.flush 0 (some f) with conn.path := ⟨0, 1⟩, batch := b }.setStream 0 byteAndFinSent
  let g : FlushLoop := { f with bufPos := 1, streamPackets := 1 }
  have hz : z.lookup 0 = some byteAndFinSent := Flush.lookup_setStream_self
    (x := { x.flush 0 (some f) with conn.path := ⟨0, 1⟩, batch := b }) hlookup byteAndFinSent
  have hrequeue : z.requeue noDgrams (.stream 0) false [.pseudo] =
      .ok [.stream 0, .pseudo] := by
    simp [Flush.requeue, Flush.hasUnsent, hz, byteAndFinSent, byteAndFin]
  have hiter : (x.flush 0 (some f)).iterate noDgrams 0 byteTaken =
      .ok { z with loop := some g } := by
    have hpacket := Flush.iterate_packet (Q := noDgrams) (i := 0) (w := byteTaken)
      (t := byteAndFinSent) (x := x.flush 0 (some f)) rfl rfl rfl hlookup hoffer rfl rfl rfl hpush
      (by simp [hb'.count, maxBatch])
    rw [hpacket, Flush.proceed, if_neg (by decide)]
    exact congrArg (fun r => r >>= fun cs => .ok { z with loop := some { g with channels := cs } })
      hrequeue
  have hstream : (x.afterFlush 0 { z with loop := some g }).stream 0 0 = some byteAndFinSent := by
    rw [stream_afterFlush]
    exact hz
  refine ⟨x.afterFlush 0 { z with loop := some g }, ?_, hstream, g, rfl,
    ⟨g, [.pseudo], rfl, rfl, rfl⟩, hstream, rfl⟩
  simp [finStep, step, hb, f, hiter]

/-- The byte and the FIN on their way, under the theorem's hypotheses. -/
theorem fin_after_data_one_byte :
    (∃ x y : SendEndpoint Nat Unit, (finMachine noDgrams fun _ _ => True).Reachable x ∧
      x.FinEnabled (.endpoint (.iterate byteTaken)) ∧
      x.finStep noDgrams (.endpoint (.iterate byteTaken)) = .ok y ∧
      x.stream 0 0 = some byteAndFin ∧ y.stream 0 0 = some byteAndFinSent ∧
      byteAndFinSent.unsentBytes = []) ∧
    ∃ x : SendEndpoint Nat Unit, (finMachine noDgrams Released).Reachable x ∧
      x.FinEnabled (.endpoint (.iterate byteTaken)) ∧ byteAndFin.sentFin = false := by
  have hmain := @fin_after_data Nat Unit _ noDgrams
  obtain ⟨x, hx, hb, hs, hhold, -⟩ := byteAndFin_offered (fun _ _ => True) fun _ _ _ => trivial
  obtain ⟨hen, y, hok, ht, -⟩ := byteAndFin_taken hb hs hhold
  obtain ⟨x', hx', hb', hs', hhold', -⟩ := byteAndFin_offered Released (by
    intro x op hop
    cases op with
    | endpoint op =>
      cases op with
      | iterate w => exact (hop w rfl).elim
      | _ => trivial
    | _ => trivial)
  have hoffers : x'.Offers 0 0 byteAndFin ⟨[[1]], true⟩ :=
    ⟨_, hb', ⟨_, [.pseudo], rfl, rfl, rfl⟩, hs', rfl⟩
  exact ⟨⟨x, y, hx, hen, hok, hs, ht,
      ((hmain.1 x hx).2.1 _ y hen hok 0 0 _ _ hs ht).1 rfl rfl⟩,
    x', hx', (byteAndFin_taken hb' hs' hhold').1, (hmain.2 x' hx').1 0 0 _ _ hoffers⟩

/-- A packet takes a stream's only byte and its FIN, and the same flush goes on to offer the
stream once more, with no data and the FIN flag. -/
theorem finished_stream_offered :
    ∃ x : SendEndpoint Nat Unit, (finMachine noDgrams fun _ _ => True).Reachable x ∧
      ∃ s o, x.Offers 0 0 s o ∧ s.sentFin = true ∧ o.fin = true ∧ o.data = [] := by
  obtain ⟨x, hx, hb, hs, hhold, -⟩ := byteAndFin_offered (fun _ _ => True) fun _ _ _ => trivial
  obtain ⟨hen, y, hok, -, hoffers⟩ := byteAndFin_taken hb hs hhold
  exact ⟨y, hx.step ⟨hen, trivial⟩ hok, byteAndFinSent, ⟨[], true⟩, hoffers, rfl, rfl, rfl⟩

end SendEndpoint

end Libquic
