import Libquic.Connection.Offer
import Libquic.Lib.OrderedMap
import Libquic.Stream.Ledger

/-!
# Streams of a 0-RTT connection, and their reversal

A client that resumes a session opens streams and sends on them before the handshake
is done. If the server rejects the early data, ngtcp2 forgets every stream, and
`revert_early_channels` moves the open ones back to the front of `pending_streams`, to
be opened and sent again.

Each stream carries its ledger, and two facts about it that the code does not keep: how
many streams the application had opened before it, and whether ngtcp2, as far as it
remembers, has been given the stream's FIN.
-/
namespace Libquic

open Lib

structure EarlyStream where
  /-- The number of streams opened before this one. -/
  label : Nat
  send : SendState := ⟨{}, {}⟩
  /-- ngtcp2 has the stream's FIN. -/
  finGiven : Bool := false
  deriving DecidableEq, Repr

namespace EarlyStream

abbrev stream (e : EarlyStream) : Stream := e.send.stream

/-- A new stream object. -/
def fresh (label : Nat) (notify : Bool) : EarlyStream :=
  { label := label, send := ⟨{ notify := notify, hadNotify := notify }, {}⟩ }

/-- The stream's id once ngtcp2 has opened it. -/
def opened (e : EarlyStream) (id : Int) : EarlyStream :=
  { e with send := { e.send with stream := { e.stream with streamId := id, ready := true } } }

def sendFin (e : EarlyStream) : EarlyStream :=
  { e with send := { e.send with stream := { e.stream with sendFin := true } } }

/-- The sends, acks and withdrawals that do not depend on flushing. -/
def apply (op : SendOp) (e : EarlyStream) : Except Fault EarlyStream := do
  return { e with send := ← SendState.step true e.send op }

/-- The stream's turn in a flush: `accepted` is how many of the bytes offered ngtcp2 took,
`none` if it took no stream data. -/
def turn (accepted : Option Nat) (reaction : Reaction) (e : EarlyStream) :
    Except Fault EarlyStream := do
  match ← e.stream.offer, accepted with
  | some o, some n =>
    let send := { e.send with stream := e.stream.noteFin o n }
    return { e with
      send := ← SendState.step true send (.write maxPmtudUdpPayload n reaction)
      finGiven := e.finGiven || (o.fin && n == o.data.length) }
  | _, _ => return e

/-- `revert_stream` and `set_ready(false)`, after ngtcp2 has forgotten the stream. What was
written and not acked counts as not written. -/
def revert (e : EarlyStream) : EarlyStream :=
  { e with
    send := ⟨{ e.stream.revertStream with ready := false },
      { e.send.ledger with
        consumed := (bytesOf e.send.ledger.live).take e.send.ledger.acked }⟩
    finGiven := false }

def checkWatermark (reaction : Reaction) (e : EarlyStream) : EarlyStream :=
  { e with
    send := e.send.commit e.send.ledger
      (e.stream.checkWatermark (Stream.react true reaction)) }

end EarlyStream

structure EarlyConn where
  streams : List (Int × EarlyStream) := []
  pendingStreams : List EarlyStream := []
  streamQueue : List (Int × EarlyStream) := []
  /-- The id that ngtcp2 gives the next stream, and how many more it allows. -/
  nextId : Int := 0
  bidiLeft : Nat
  rejected : Bool := false
  /-- How many streams the application has opened. -/
  nextLabel : Nat := 0
  deriving DecidableEq, Repr

namespace EarlyConn

/-- All streams: the open ones by id, then those waiting to be opened. -/
def all (c : EarlyConn) : List EarlyStream := c.streams.map Prod.snd ++ c.pendingStreams

/-- Change the stream object with that label, wherever it is kept. -/
def modify (c : EarlyConn) (label : Nat) (f : EarlyStream → EarlyStream) : EarlyConn :=
  { c with
    streams := c.streams.map fun entry =>
      (entry.1, if entry.2.label = label then f entry.2 else entry.2)
    pendingStreams := c.pendingStreams.map fun e => if e.label = label then f e else e }

def onStream (c : EarlyConn) (label : Nat) (f : EarlyStream → Except Fault EarlyStream) :
    Except Fault EarlyConn :=
  match c.all.find? (·.label = label) with
  | none => .ok c
  | some e => do
    let e ← f e
    return c.modify label fun _ => e

/-- `ngtcp2_conn_open_bidi_stream` has succeeded for `e`. -/
def opened (c : EarlyConn) (e : EarlyStream) : EarlyConn :=
  { c with
    nextId := c.nextId + 4
    bidiLeft := c.bidiLeft - 1
    streams := OrderedMap.insert c.nextId (e.opened c.nextId) c.streams }

def openStream (c : EarlyConn) (notify : Bool) : EarlyConn :=
  let e := EarlyStream.fresh c.nextLabel notify
  let c := { c with nextLabel := c.nextLabel + 1 }
  if c.bidiLeft = 0 then { c with pendingStreams := c.pendingStreams ++ [e] } else c.opened e

def checkPendingStreams : Nat → EarlyConn → EarlyConn
  | 0, c => c
  | available + 1, c =>
    match c.pendingStreams with
    | [] => c
    | e :: rest =>
      if c.bidiLeft = 0 then c
      else checkPendingStreams available { c.opened e with pendingStreams := rest }

/-- The loop of `revert_early_channels`, over the streams in reverse order. -/
def returnStreams : List (Int × EarlyStream) → EarlyConn → EarlyConn
  | [], c => c
  | (id, e) :: rest, c =>
    returnStreams rest
      (if id % 2 = 0 then { c with pendingStreams := e.revert :: c.pendingStreams }
      else { c with streamQueue := OrderedMap.insert id e.revert c.streamQueue })

/-- Then the watermarks of the reverted streams, whose callbacks may send. -/
def checkWatermarks (reactions : Nat → Reaction) : List (Int × EarlyStream) → EarlyConn → EarlyConn
  | [], c => c
  | (_, e) :: rest, c =>
    checkWatermarks reactions rest
      (c.modify e.label (EarlyStream.checkWatermark (reactions e.label)))

def revertEarlyChannels (c : EarlyConn) (reactions : Nat → Reaction) : EarlyConn :=
  let reverted := c.streams.reverse
  let c := { returnStreams reverted c with streams := [] }
  checkWatermarks reactions reverted (checkPendingStreams c.bidiLeft c)

/-- The server has rejected early data: ngtcp2 starts over, allowing `left` streams. -/
def reject (c : EarlyConn) (left : Nat) (reactions : Nat → Reaction) : EarlyConn :=
  { c with nextId := 0, bidiLeft := left, rejected := true }.revertEarlyChannels reactions

/-- The peer allows more streams. -/
def extendMaxLocalStreamsBidi (c : EarlyConn) (more : Nat) : EarlyConn :=
  checkPendingStreams (c.bidiLeft + more) { c with bidiLeft := c.bidiLeft + more }

end EarlyConn

/-! ## Each stream by itself -/

namespace EarlyStream

/-- The stream's ledger and its FIN flags are in order. -/
structure Sound (e : EarlyStream) : Prop where
  agrees : e.send.Agrees
  fin : e.stream.sentFin = true → e.stream.sendFin = true

/-- The stream takes its FIN for sent exactly if ngtcp2 has it, and then has nothing left
to send. -/
structure InStep (e : EarlyStream) : Prop where
  given : e.stream.sentFin = e.finGiven
  done : e.stream.sentFin = true → e.stream.unsentSize = 0

/-- The stream owes ngtcp2 bytes or a FIN. -/
def Outstanding (e : EarlyStream) : Prop :=
  e.stream.unsentBytes ≠ [] ∨ (e.stream.sendFin = true ∧ e.finGiven = false)

/-- What is kept of a stream through a run: it is sound and, in runs where `k` is assumed,
in step with ngtcp2. -/
def Kept (k : Prop) (e : EarlyStream) : Prop := e.Sound ∧ (k → e.InStep)

variable {e : EarlyStream}

theorem Sound.opened (h : e.Sound) (id : Int) : (e.opened id).Sound := by
  obtain ⟨released, held, hsplit⟩ := h.agrees
  exact ⟨⟨released, held, hsplit.congr rfl⟩, h.fin⟩

theorem Kept.opened {k : Prop} (h : e.Kept k) (id : Int) : (e.opened id).Kept k :=
  ⟨h.1.opened id, fun hk => ⟨(h.2 hk).given, (h.2 hk).done⟩⟩

theorem Kept.fresh (k : Prop) (label : Nat) (notify : Bool) :
    Kept k (fresh label notify) := by
  refine ⟨⟨SendState.Initial.agrees ?_, ?_⟩, fun _ => ⟨rfl, ?_⟩⟩ <;>
    simp [SendState.Initial, EarlyStream.fresh]

theorem Kept.sendFin {k : Prop} (h : e.Kept k) : e.sendFin.Kept k := by
  obtain ⟨released, held, hsplit⟩ := h.1.agrees
  exact ⟨⟨⟨released, held, hsplit.congr rfl⟩, fun _ => rfl⟩,
    fun hk => ⟨(h.2 hk).given, (h.2 hk).done⟩⟩

theorem Sound.revert (h : e.Sound) : e.revert.Sound := by
  obtain ⟨released, held, hsplit⟩ := h.agrees
  exact ⟨⟨released, held, hsplit.revert.congr rfl⟩, h.fin⟩

/-- A stream that had not sent its FIN is in step after the reversal. -/
theorem Kept.revert {k : Prop} (h : e.Sound) (hfin : k → e.stream.sentFin = false) :
    e.revert.Kept k := by
  refine ⟨h.revert, fun hk => ⟨hfin hk, fun hs => ?_⟩⟩
  exact absurd (hs.symm.trans (hfin hk)) (by simp)

theorem Kept.checkWatermark {k : Prop} (h : e.Kept k) (reaction : Reaction) :
    (e.checkWatermark reaction).Kept k := by
  have hflags : (e.stream.checkWatermark (Stream.react true reaction)).SameFlags e.stream :=
    Stream.checkWatermark_sameFlags (Stream.react_onlySends true reaction) e.stream
  refine ⟨⟨?_, ?_⟩, fun hk => ⟨hflags.2.trans (h.2 hk).given, fun hs => ?_⟩⟩
  · obtain ⟨added, alarm, hne, he⟩ :=
      Stream.checkWatermark_grow (Stream.react_onlySends true reaction) e.stream
    rw [EarlyStream.checkWatermark, he]
    exact SendState.commit_grow h.1.agrees rfl alarm hne
  · exact fun hs => hflags.1.trans (h.1.fin (hflags.2.symm.trans hs))
  · have hsent : e.stream.sentFin = true := hflags.2.symm.trans hs
    obtain ⟨alarm, he⟩ := Stream.checkWatermark_of_sendFin (h.1.fin hsent) true reaction
    exact (congrArg Stream.unsentSize he).trans ((h.2 hk).done hsent)

/-- Sends, acks and withdrawals do not fault and leave the FIN flags alone. -/
theorem Kept.apply {k : Prop} (h : e.Kept k) {op : SendOp} (hen : e.send.Enabled op) :
    ∃ e', EarlyStream.apply op e = .ok e' ∧ e'.Kept k ∧ e'.label = e.label := by
  obtain ⟨x, hok, hx⟩ := SendState.agrees_inductive.step e.send (true, op) h.1.agrees hen
  have hstep : SendState.step true e.send op = .ok x := hok
  have hflags : x.stream.SameFlags e.stream := SendState.step_sameFlags hstep
  refine ⟨{ e with send := x }, by simp [EarlyStream.apply, hstep], ⟨⟨hx, ?_⟩, ?_⟩, rfl⟩
  · exact fun hs => hflags.1.trans (h.1.fin (hflags.2.symm.trans hs))
  · intro hk
    refine ⟨hflags.2.trans (h.2 hk).given, fun hs => ?_⟩
    have hsent : e.stream.sentFin = true := hflags.2.symm.trans hs
    have hle := SendState.step_unsentSize (h.1.fin hsent) hstep
    have hzero : e.send.stream.unsentSize = 0 := (h.2 hk).done hsent
    show x.stream.unsentSize = 0
    omega

/-- `x` is `e` back at its first byte that is not acked, possibly with more queued since. -/
structure Restarts (e x : EarlyStream) : Prop where
  acked : x.send.ledger.acked = e.send.ledger.acked
  live : e.send.ledger.live <+: x.send.ledger.live
  unsent : x.stream.unsentBytes = (bytesOf x.send.ledger.live).drop x.send.ledger.acked
  sendFin : x.stream.sendFin = e.stream.sendFin

theorem Sound.restarts (h : e.Sound) : Restarts e e.revert := by
  obtain ⟨released, held, hsplit⟩ := h.agrees
  refine ⟨rfl, List.prefix_rfl, ?_, rfl⟩
  have hpos : (e.stream.revertStream).sendPoint = 0 := by simp [Stream.sendPoint, Stream.revertStream]
  have hunsent := hsplit.revert.unsentBytes
  rw [hpos, Nat.add_zero] at hunsent
  exact hunsent

theorem Restarts.checkWatermark {x : EarlyStream} (h : Restarts e x) (hx : x.Sound)
    (reaction : Reaction) : Restarts e (x.checkWatermark reaction) := by
  obtain ⟨released, held, hsplit⟩ := hx.agrees
  obtain ⟨added, alarm, hne, he⟩ :=
    Stream.checkWatermark_grow (Stream.react_onlySends true reaction) x.stream
  have hsend : (x.checkWatermark reaction).send = ⟨x.stream.grow added alarm,
      x.send.ledger.queue added⟩ := by
    rw [EarlyStream.checkWatermark, he]
    simp [SendState.commit, Stream.grow]
  have hle : x.send.ledger.acked ≤ (bytesOf x.send.ledger.live).length := by
    rw [hsplit.length_live]
    omega
  refine ⟨?_, ?_, ?_, ?_⟩
  · rw [hsend]
    exact h.acked
  · rw [hsend]
    exact h.live.trans (List.prefix_append ..)
  · show (x.checkWatermark reaction).send.stream.unsentBytes = _
    rw [hsend]
    simp only [Ledger.queue, bytesOf_append]
    rw [Stream.grow_unsentBytes alarm hsplit.point hne, h.unsent,
      List.drop_append_of_le_length hle]
  · show (x.checkWatermark reaction).send.stream.sendFin = _
    rw [hsend]
    exact h.sendFin

/-- The stream's FIN is taken for sent, and ngtcp2 does not have it. -/
structure Stale (e : EarlyStream) : Prop where
  sent : e.stream.sentFin = true
  given : e.finGiven = false
  sendFin : e.stream.sendFin = true

theorem Stale.checkWatermark (h : e.Stale) (reaction : Reaction) :
    (e.checkWatermark reaction).Stale := by
  have hflags : (e.stream.checkWatermark (Stream.react true reaction)).SameFlags e.stream :=
    Stream.checkWatermark_sameFlags (Stream.react_onlySends true reaction) e.stream
  exact ⟨hflags.2.trans h.sent, h.given, hflags.1.trans h.sendFin⟩

theorem Sound.offer (h : e.Sound) :
    (e.stream.offer = .ok none ∧ e.stream.unsentBytes = [] ∧ e.stream.sendFin = false) ∨
      ∃ o, e.stream.offer = .ok (some o) ∧ o.data <+: e.stream.unsentBytes ∧
        (e.stream.unsentBytes ≠ [] → o.data ≠ []) ∧
        (o.fin = true ↔ e.stream.sendFin = true ∧ o.data = e.stream.unsentBytes) := by
  obtain ⟨released, held, hsplit⟩ := h.agrees
  exact Stream.offer_spec hsplit.point hsplit.filledBuffers hsplit.unsent

/-- A turn in a flush does not fault, and notes the FIN as sent exactly if ngtcp2 got it. -/
theorem Kept.turn {k : Prop} (h : e.Kept k) {accepted : Option Nat} (reaction : Reaction)
    (hturn : e.stream.sentFin = false) (hacc : accepted.getD 0 ≤ e.stream.offeredSize) :
    ∃ e', EarlyStream.turn accepted reaction e = .ok e' ∧ e'.Kept k ∧ e'.label = e.label := by
  rcases h.1.offer with ⟨hok, -, -⟩ | ⟨o, hok, -, -, hfin⟩
  · refine ⟨e, ?_, h, rfl⟩
    cases accepted <;> simp [EarlyStream.turn, hok]
  · cases accepted with
    | none => exact ⟨e, by simp [EarlyStream.turn, hok], h, rfl⟩
    | some n =>
      obtain ⟨more, hpend⟩ := Stream.pending_of_offer hok
      obtain ⟨released, held, hsplit⟩ := h.1.agrees
      have hnoted : SendState.Agrees { e.send with stream := e.stream.noteFin o n } :=
        ⟨released, held, hsplit.congr rfl⟩
      have hen : SendState.Enabled { e.send with stream := e.stream.noteFin o n }
          (.write maxPmtudUdpPayload n reaction) := by
        have hsame : (e.stream.noteFin o n).pending maxPmtudUdpPayload = .ok (o.bufs, more) := hpend
        simp only [SendState.Enabled, SendState.offered, hsame]
        simpa [Stream.offeredSize, hok, Offer.data] using hacc
      obtain ⟨x, hstep, hx⟩ := SendState.agrees_inductive.step _
        (true, .write maxPmtudUdpPayload n reaction) hnoted hen
      have hwrite : SendState.step true { e.send with stream := e.stream.noteFin o n }
          (.write maxPmtudUdpPayload n reaction) = .ok x := hstep
      have hflags : x.stream.SameFlags (e.stream.noteFin o n) := SendState.step_sameFlags hwrite
      have hsent : x.stream.sentFin = (o.fin && n == o.data.length) := by
        rw [hflags.2, Stream.noteFin, hturn, Bool.false_or]
      have hgiven : x.stream.sentFin = true → o.fin = true ∧ n = o.data.length := by
        rw [hsent]
        simp
      refine ⟨{ e with send := x, finGiven := e.finGiven || (o.fin && n == o.data.length) },
        by simp [EarlyStream.turn, hok, hwrite], ⟨⟨hx, ?_⟩, ?_⟩, rfl⟩
      · exact fun hs => hflags.1.trans (hfin.mp (hgiven hs).1).1
      · intro hk
        refine ⟨?_, fun hs => ?_⟩
        · rw [← (h.2 hk).given, hturn, Bool.false_or]
          exact hsent
        · obtain ⟨hofin, hn⟩ := hgiven hs
          obtain ⟨hsend, hall⟩ := hfin.mp hofin
          have hle := SendState.step_unsentSize (x := { e.send with stream := e.stream.noteFin o n })
            hsend hwrite
          have hsize : e.stream.unsentSize = n := by rw [hsplit.unsent, hn, hall]
          have hle' : x.stream.unsentSize + n ≤ e.stream.unsentSize := hle
          show x.stream.unsentSize = 0
          omega

end EarlyStream

/-! ## All streams of the connection -/

namespace EarlyConn

variable {c : EarlyConn} {P : EarlyStream → Prop}

/-- Every stream satisfies `P`. -/
def Every (c : EarlyConn) (P : EarlyStream → Prop) : Prop := ∀ e ∈ c.all, P e

theorem Every.modify (h : c.Every P) {label : Nat} {f : EarlyStream → EarlyStream}
    (hf : ∀ e ∈ c.all, e.label = label → P (f e)) : (c.modify label f).Every P := by
  have hall : (c.modify label f).all =
      c.all.map fun e => if e.label = label then f e else e := by
    simp [all, EarlyConn.modify, Function.comp_def]
  intro e he
  rw [hall] at he
  obtain ⟨e', he', rfl⟩ := List.mem_map.mp he
  split_ifs with hl
  · exact hf e' he' hl
  · exact h e' he'

theorem Every.opened (h : c.Every P) {e : EarlyStream} (he : P (e.opened c.nextId)) :
    (c.opened e).Every P := by
  intro x hx
  rcases List.mem_append.mp hx with hx | hx
  · obtain ⟨entry, hentry, rfl⟩ := List.mem_map.mp hx
    rcases OrderedMap.mem_of_mem_insert hentry with rfl | hold
    · exact he
    · exact h _ (List.mem_append_left _ (List.mem_map_of_mem hold))
  · exact h x (List.mem_append_right _ hx)

/-- What opening the first waiting stream keeps, the loop over the waiting streams keeps. -/
theorem checkPendingStreams_keep {Q : EarlyConn → Prop}
    (hopen : ∀ c e rest, Q c → c.pendingStreams = e :: rest →
      Q { c.opened e with pendingStreams := rest })
    (h : Q c) (n : Nat) : Q (checkPendingStreams n c) := by
  induction n generalizing c with
  | zero => exact h
  | succ n ih =>
    unfold checkPendingStreams
    split
    · exact h
    · rename_i e rest hpending
      split_ifs
      · exact h
      · exact ih (hopen c e rest h hpending)

theorem Every.checkPendingStreams (h : c.Every P) (hopen : ∀ e id, P e → P (e.opened id))
    (n : Nat) : (checkPendingStreams n c).Every P := by
  refine checkPendingStreams_keep (Q := fun c => c.Every P) ?_ h n
  intro c e rest h hpending
  have he : P e := h e (by simp [all, hpending])
  have hopened := h.opened (hopen e c.nextId he)
  intro x hx
  apply hopened x
  simp only [all, EarlyConn.opened, List.mem_append] at hx ⊢
  exact hx.imp id fun hx => by simp [hpending, hx]

theorem Every.extend (h : c.Every P) (hopen : ∀ e id, P e → P (e.opened id)) (more : Nat) :
    (c.extendMaxLocalStreamsBidi more).Every P := by
  have hmore : Every { c with bidiLeft := c.bidiLeft + more } P := h
  exact hmore.checkPendingStreams hopen _

theorem Every.checkWatermarks (h : c.Every P) (reactions : Nat → Reaction)
    (hcheck : ∀ e r, P e → P (e.checkWatermark r)) (l : List (Int × EarlyStream)) :
    (checkWatermarks reactions l c).Every P := by
  induction l generalizing c with
  | nil => exact h
  | cons entry rest ih => exact ih (h.modify fun e he _ => hcheck e _ (h e he))

/-! ## The order of streams -/

/-- The open streams have the ids 0, 4, 8, and so on. Together with the waiting ones
after them they are all streams, in the order the application opened them. -/
structure Lined (c : EarlyConn) : Prop where
  ids : c.streams.map Prod.fst = (List.range c.streams.length).map fun i : Nat => 4 * (i : Int)
  next : c.nextId = 4 * c.streams.length
  labels : c.all.map (·.label) = List.range c.nextLabel

theorem Lined.id_lt (h : c.Lined) : ∀ entry ∈ c.streams, entry.1 < c.nextId := by
  intro entry hentry
  have hid : entry.1 ∈ c.streams.map Prod.fst := List.mem_map_of_mem hentry
  rw [h.ids] at hid
  obtain ⟨i, hi, he⟩ := List.mem_map.mp hid
  have := List.mem_range.mp hi
  rw [h.next]
  omega

theorem Lined.id_even (h : c.Lined) : ∀ entry ∈ c.streams, entry.1 % 2 = 0 := by
  intro entry hentry
  have hid : entry.1 ∈ c.streams.map Prod.fst := List.mem_map_of_mem hentry
  rw [h.ids] at hid
  obtain ⟨i, -, he⟩ := List.mem_map.mp hid
  omega

theorem Lined.opened_streams (h : c.Lined) (e : EarlyStream) :
    (c.opened e).streams = c.streams ++ [(c.nextId, e.opened c.nextId)] :=
  OrderedMap.insert_last h.id_lt

/-- Opening the first waiting stream keeps the line. -/
theorem Lined.opened (h : c.Lined) {e : EarlyStream} {rest : List EarlyStream} {n : Nat}
    (hl : (c.streams.map (·.2.label)) ++ e.label :: rest.map (·.label) = List.range n) :
    Lined { c.opened e with pendingStreams := rest, nextLabel := n } := by
  have hstreams := h.opened_streams e
  refine ⟨?_, ?_, ?_⟩
  · show (c.opened e).streams.map Prod.fst = _
    simp only [hstreams, List.map_append, h.ids, List.length_append, List.length_singleton,
      List.range_succ]
    simp [h.next]
  · show c.nextId + 4 = 4 * ((c.opened e).streams.length : Int)
    rw [hstreams, h.next, List.length_append]
    push_cast
    simp
    ring
  · show (((c.opened e).streams.map Prod.snd) ++ rest).map (·.label) = List.range n
    rw [hstreams, ← hl]
    simp [EarlyStream.opened, Function.comp_def]

theorem Lined.checkPendingStreams (h : c.Lined) (n : Nat) : (checkPendingStreams n c).Lined := by
  refine checkPendingStreams_keep (Q := Lined) ?_ h n
  intro c e rest h hpending
  have hl := h.labels
  simp only [all, hpending, List.map_append, List.map_map, List.map_cons] at hl
  exact h.opened hl

/-- Streams wait only while ngtcp2 allows no more. -/
def Waiting (c : EarlyConn) : Prop := c.pendingStreams ≠ [] → c.bidiLeft = 0

theorem checkPendingStreams_waiting {n : Nat} (hn : c.bidiLeft ≤ n) :
    (checkPendingStreams n c).Waiting := by
  induction n generalizing c with
  | zero => exact fun _ => Nat.le_zero.mp hn
  | succ n ih =>
    unfold checkPendingStreams
    split
    · rename_i hpending
      exact fun hne => absurd hpending hne
    · rename_i e rest hpending
      split_ifs with h0
      · exact fun _ => h0
      · exact ih (show c.bidiLeft - 1 ≤ n by omega)

theorem checkPendingStreams_empty {n : Nat} (hn : c.pendingStreams.length ≤ n)
    (hb : c.pendingStreams.length ≤ c.bidiLeft) :
    (checkPendingStreams n c).pendingStreams = [] := by
  induction n generalizing c with
  | zero => exact List.length_eq_zero_iff.mp (Nat.le_zero.mp hn)
  | succ n ih =>
    unfold checkPendingStreams
    split
    · assumption
    · rename_i e rest hpending
      rw [hpending, List.length_cons] at hn hb
      rw [if_neg (by omega)]
      exact ih (show rest.length ≤ n by omega) (show rest.length ≤ c.bidiLeft - 1 by omega)

/-- The streams go back to the front of the waiting ones, in their old order. -/
theorem returnStreams_eq {l : List (Int × EarlyStream)} (h : ∀ entry ∈ l, entry.1 % 2 = 0) :
    returnStreams l c =
      { c with pendingStreams := l.reverse.map (·.2.revert) ++ c.pendingStreams } := by
  induction l generalizing c with
  | nil => rfl
  | cons entry rest ih =>
    have heven := h entry (by simp)
    rw [returnStreams, if_pos heven, ih fun e he => h e (by simp [he])]
    simp

/-- The connection once the streams are back and none is reopened yet. -/
def returned (c : EarlyConn) (left : Nat) : EarlyConn :=
  { c with
    streams := []
    pendingStreams := c.streams.map (·.2.revert) ++ c.pendingStreams
    nextId := 0
    bidiLeft := left
    rejected := true }

theorem reject_eq (h : c.Lined) (left : Nat) (reactions : Nat → Reaction) :
    c.reject left reactions = checkWatermarks reactions c.streams.reverse
      (checkPendingStreams left (c.returned left)) := by
  have heven : ∀ entry ∈ c.streams.reverse, entry.1 % 2 = 0 := by
    intro entry hentry
    exact h.id_even entry (List.mem_reverse.mp hentry)
  have hback := returnStreams_eq (c := { c with nextId := 0, bidiLeft := left, rejected := true })
    heven
  simp only [List.reverse_reverse] at hback
  simp only [reject, revertEarlyChannels, hback]
  rfl

theorem Lined.returned (h : c.Lined) (left : Nat) : (c.returned left).Lined := by
  refine ⟨rfl, rfl, ?_⟩
  rw [EarlyConn.returned, ← h.labels]
  simp [all, EarlyStream.revert, Function.comp_def]

theorem Lined.modify (h : c.Lined) {label : Nat} {f : EarlyStream → EarlyStream}
    (hf : ∀ e, e.label = label → (f e).label = label) : (c.modify label f).Lined := by
  have hsame (e : EarlyStream) : (if e.label = label then f e else e).label = e.label := by
    split_ifs with hl
    · exact (hf e hl).trans hl.symm
    · rfl
  refine ⟨?_, ?_, ?_⟩
  · simpa [EarlyConn.modify, Function.comp_def] using h.ids
  · simpa [EarlyConn.modify] using h.next
  · rw [show (c.modify label f).nextLabel = c.nextLabel from rfl, ← h.labels]
    simp [all, EarlyConn.modify, Function.comp_def, hsame]

theorem Lined.checkWatermarks (h : c.Lined) (reactions : Nat → Reaction)
    (l : List (Int × EarlyStream)) : (checkWatermarks reactions l c).Lined := by
  induction l generalizing c with
  | nil => exact h
  | cons entry rest ih => exact ih (h.modify fun e he => he)

theorem Waiting.checkWatermarks (h : c.Waiting) (reactions : Nat → Reaction)
    (l : List (Int × EarlyStream)) : (checkWatermarks reactions l c).Waiting := by
  induction l generalizing c with
  | nil => exact h
  | cons entry rest ih =>
    apply ih
    intro hne
    apply h
    rintro hnil
    exact hne (by simp [EarlyConn.modify, hnil])

/-! ## Rejection over whole runs -/

inductive Op where
  | openStream (notify : Bool)
  /-- A send, an ack or a withdrawal. -/
  | apply (label : Nat) (op : SendOp)
  | sendFin (label : Nat)
  /-- An open stream's turn in a flush. -/
  | turn (label : Nat) (accepted : Option Nat) (reaction : Reaction)
  | extendMaxLocalStreamsBidi (more : Nat)
  | reject (left : Nat) (reactions : Nat → Reaction)

/-- Flushes take turns only with open streams that have not sent their FIN, ngtcp2 takes no
more than it was offered, and early data is rejected at most once. -/
def Enabled (c : EarlyConn) : Op → Prop
  | .apply label op =>
    op.written = 0 ∧ ∀ e ∈ c.all, e.label = label → e.send.Enabled op
  | .turn label accepted _ =>
    ∀ e ∈ c.all, e.label = label → e ∈ c.streams.map Prod.snd ∧ e.stream.sentFin = false ∧
      accepted.getD 0 ≤ e.stream.offeredSize
  | .reject _ _ => c.rejected = false
  | _ => True

def step (c : EarlyConn) : Op → Except Fault EarlyConn
  | .openStream notify => .ok (c.openStream notify)
  | .apply label op => c.onStream label (EarlyStream.apply op)
  | .sendFin label => .ok (c.modify label EarlyStream.sendFin)
  | .turn label accepted reaction => c.onStream label (EarlyStream.turn accepted reaction)
  | .extendMaxLocalStreamsBidi more => .ok (c.extendMaxLocalStreamsBidi more)
  | .reject left reactions => .ok (c.reject left reactions)

def machine : Machine EarlyConn Op Fault where
  initial c := ∃ left, c = { bidiLeft := left }
  enabled := Enabled
  step := step

instance (c : EarlyConn) : (op : Op) → Decidable (machine.enabled c op)
  | .apply label op => inferInstanceAs
    (Decidable (op.written = 0 ∧ ∀ e ∈ c.all, e.label = label → e.send.Enabled op))
  | .turn label accepted _ => inferInstanceAs
    (Decidable (∀ e ∈ c.all, e.label = label → e ∈ c.streams.map Prod.snd ∧
      e.stream.sentFin = false ∧ accepted.getD 0 ≤ e.stream.offeredSize))
  | .reject _ _ => inferInstanceAs (Decidable (c.rejected = false))
  | .openStream _ => inferInstanceAs (Decidable True)
  | .sendFin _ => inferInstanceAs (Decidable True)
  | .extendMaxLocalStreamsBidi _ => inferInstanceAs (Decidable True)

/-- What holds before and after a rejection alike, and what is kept of each stream. -/
structure Sound (k : Prop) (c : EarlyConn) : Prop where
  lined : c.Lined
  waiting : c.Waiting
  every : c.Every (EarlyStream.Kept k)

section Steps

variable {k : Prop}

theorem Sound.modify (h : c.Sound k) {label : Nat} {f : EarlyStream → EarlyStream}
    (hl : ∀ e, e.label = label → (f e).label = label)
    (hf : ∀ e ∈ c.all, e.label = label → (f e).Kept k) : (c.modify label f).Sound k := by
  refine ⟨h.lined.modify hl, ?_, h.every.modify hf⟩
  intro hne
  apply h.waiting
  intro hnil
  exact hne (by simp [EarlyConn.modify, hnil])

theorem Sound.onStream (h : c.Sound k) {label : Nat} {f : EarlyStream → Except Fault EarlyStream}
    (hf : ∀ e ∈ c.all, e.label = label →
      ∃ e', f e = .ok e' ∧ e'.Kept k ∧ e'.label = e.label) :
    ∃ c', c.onStream label f = .ok c' ∧ c'.Sound k := by
  cases hfind : c.all.find? (·.label = label) with
  | none => exact ⟨c, by simp [EarlyConn.onStream, hfind], h⟩
  | some e =>
    have hlabel : e.label = label := by simpa using List.find?_some hfind
    obtain ⟨e', hok, hp, hl⟩ := hf e (List.mem_of_find?_eq_some hfind) hlabel
    exact ⟨c.modify label fun _ => e', by simp [EarlyConn.onStream, hfind, hok],
      h.modify (fun _ _ => hl.trans hlabel) fun _ _ _ => hp⟩

theorem Sound.openStream (h : c.Sound k) (notify : Bool) : (c.openStream notify).Sound k := by
  have hfresh := EarlyStream.Kept.fresh k c.nextLabel notify
  unfold EarlyConn.openStream
  dsimp only
  split_ifs with h0
  · refine ⟨⟨h.lined.ids, h.lined.next, ?_⟩, fun _ => h0, ?_⟩
    · have hl := h.lined.labels
      simp only [all, List.map_append] at hl ⊢
      rw [List.range_succ, ← hl]
      simp [EarlyStream.fresh]
    · intro e he
      simp only [all, List.mem_append, List.mem_singleton] at he
      rcases he with he | he | rfl
      · exact h.every e (List.mem_append_left _ he)
      · exact h.every e (List.mem_append_right _ he)
      · exact hfresh
  · have hnone : c.pendingStreams = [] := by
      by_contra hne
      exact h0 (h.waiting hne)
    have hl := h.lined.labels
    simp only [all, hnone, List.append_nil, List.map_map] at hl
    refine ⟨?_, fun hne => absurd hnone hne, ?_⟩
    · have hlast : c.streams.map (·.2.label) ++ (EarlyStream.fresh c.nextLabel notify).label ::
          ([] : List EarlyStream).map (·.label) = List.range (c.nextLabel + 1) := by
        rw [List.range_succ, ← hl]
        rfl
      have hlined := h.lined.opened hlast
      rw [← hnone] at hlined
      exact hlined
    · exact Every.opened (c := { c with nextLabel := c.nextLabel + 1 }) h.every (hfresh.opened _)

theorem Sound.extend (h : c.Sound k) (more : Nat) :
    (c.extendMaxLocalStreamsBidi more).Sound k := by
  have hlined : Lined { c with bidiLeft := c.bidiLeft + more } :=
    ⟨h.lined.ids, h.lined.next, h.lined.labels⟩
  exact ⟨hlined.checkPendingStreams _, checkPendingStreams_waiting le_rfl,
    h.every.extend (fun e id he => he.opened id) more⟩

theorem returned_every {P : EarlyStream → Prop} (h : ∀ e ∈ c.pendingStreams, P e) (left : Nat)
    (hr : ∀ entry ∈ c.streams, P entry.2.revert) : (c.returned left).Every P := by
  intro e he
  rcases List.mem_append.mp he with he | he
  · cases he
  · rcases List.mem_append.mp he with he | he
    · obtain ⟨entry, hentry, rfl⟩ := List.mem_map.mp he
      exact hr entry hentry
    · exact h e he

/-- Anything true of the reverted and the waiting streams, and kept by reopening and by the
watermark callbacks, is true of all streams after a rejection. -/
theorem reject_every {P : EarlyStream → Prop} (hlined : c.Lined) (left : Nat)
    (reactions : Nat → Reaction) (h : ∀ e ∈ c.pendingStreams, P e)
    (hr : ∀ entry ∈ c.streams, P entry.2.revert)
    (hopen : ∀ e id, P e → P (e.opened id)) (hcheck : ∀ e r, P e → P (e.checkWatermark r)) :
    (c.reject left reactions).Every P := by
  rw [reject_eq hlined]
  exact ((returned_every h left hr).checkPendingStreams hopen left).checkWatermarks reactions
    hcheck _

theorem Sound.reject (h : c.Sound k) (left : Nat) (reactions : Nat → Reaction)
    (hfin : k → ∀ entry ∈ c.streams, entry.2.stream.sentFin = false) :
    (c.reject left reactions).Sound k := by
  refine ⟨?_, ?_, reject_every h.lined left reactions
    (fun e he => h.every e (List.mem_append_right _ he)) ?_ (fun e id he => he.opened id)
    fun e r he => he.checkWatermark r⟩
  · rw [reject_eq h.lined]
    exact ((h.lined.returned left).checkPendingStreams left).checkWatermarks reactions _
  · rw [reject_eq h.lined]
    exact (checkPendingStreams_waiting (c := c.returned left) le_rfl).checkWatermarks reactions _
  · intro entry hentry
    have hmem : entry.2 ∈ c.all := List.mem_append_left _ (List.mem_map_of_mem hentry)
    exact EarlyStream.Kept.revert (h.every _ hmem).1 fun hk => hfin hk entry hentry

/-- Every step keeps the connection sound; to stay in step with ngtcp2, no stream may have
sent its FIN when early data is rejected. -/
theorem Sound.step (h : c.Sound k) {op : Op} (hen : c.Enabled op)
    (hfin : ∀ left reactions, op = .reject left reactions → k →
      ∀ entry ∈ c.streams, entry.2.stream.sentFin = false) :
    ∃ c', c.step op = .ok c' ∧ c'.Sound k := by
  cases op with
  | openStream notify => exact ⟨_, rfl, h.openStream notify⟩
  | apply label op => exact h.onStream fun e he hl => (h.every e he).apply (hen.2 e he hl)
  | sendFin label =>
    exact ⟨_, rfl, h.modify (fun _ he => he) fun e he _ => (h.every e he).sendFin⟩
  | turn label accepted reaction =>
    refine h.onStream fun e he hl => ?_
    obtain ⟨-, hsent, hacc⟩ := hen e he hl
    exact (h.every e he).turn reaction hsent hacc
  | extendMaxLocalStreamsBidi more => exact ⟨_, rfl, h.extend more⟩
  | reject left reactions => exact ⟨_, rfl, h.reject left reactions (hfin left reactions rfl)⟩

end Steps

/-! ## One rejection, and what came before it -/

def Op.isReject : Op → Bool
  | .reject _ _ => true
  | _ => false

theorem checkPendingStreams_fixed (n : Nat) (c : EarlyConn) :
    (checkPendingStreams n c).rejected = c.rejected ∧
      (checkPendingStreams n c).nextLabel = c.nextLabel := by
  refine checkPendingStreams_keep
    (Q := fun x => x.rejected = c.rejected ∧ x.nextLabel = c.nextLabel) ?_ ⟨rfl, rfl⟩ n
  intro x e rest hx _
  exact hx

theorem checkWatermarks_fixed (reactions : Nat → Reaction) (l : List (Int × EarlyStream))
    (c : EarlyConn) :
    (checkWatermarks reactions l c).rejected = c.rejected ∧
      (checkWatermarks reactions l c).nextLabel = c.nextLabel := by
  induction l generalizing c with
  | nil => exact ⟨rfl, rfl⟩
  | cons entry rest ih => exact ih _

theorem reject_fixed (h : c.Lined) (left : Nat) (reactions : Nat → Reaction) :
    (c.reject left reactions).rejected = true ∧
      (c.reject left reactions).nextLabel = c.nextLabel := by
  rw [reject_eq h]
  obtain ⟨hw, hw'⟩ := checkWatermarks_fixed reactions c.streams.reverse
    (checkPendingStreams left (c.returned left))
  obtain ⟨hp, hp'⟩ := checkPendingStreams_fixed left (c.returned left)
  exact ⟨hw.trans hp, hw'.trans hp'⟩

theorem onStream_rejected {label : Nat} {f : EarlyStream → Except Fault EarlyStream}
    {c' : EarlyConn} (h : c.onStream label f = .ok c') : c'.rejected = c.rejected := by
  unfold onStream at h
  split at h
  · exact congrArg rejected (Except.ok.inj h).symm
  · obtain ⟨e, -, h⟩ := bind_ok h
    obtain rfl := Except.ok.inj h
    rfl

theorem step_rejected (hlined : c.Lined) {op : Op} {c' : EarlyConn} (h : c.step op = .ok c') :
    c'.rejected = (c.rejected || op.isReject) := by
  cases op with
  | openStream notify =>
    obtain rfl := Except.ok.inj h
    unfold openStream
    dsimp only
    split_ifs <;> simp [Op.isReject, opened]
  | apply label op => simpa [Op.isReject] using onStream_rejected h
  | sendFin label =>
    obtain rfl := Except.ok.inj h
    simp [Op.isReject, modify]
  | turn label accepted reaction => simpa [Op.isReject] using onStream_rejected h
  | extendMaxLocalStreamsBidi more =>
    obtain rfl := Except.ok.inj h
    simp only [Op.isReject, Bool.or_false]
    exact (checkPendingStreams_fixed _ _).1
  | reject left reactions =>
    obtain rfl := Except.ok.inj h
    simpa [Op.isReject] using (reject_fixed hlined left reactions).1

theorem sound_inductive :
    machine.Inductive fun c => c.Sound False ∧ (c.rejected = false → c.Sound True) where
  initial c h := by
    obtain ⟨left, rfl⟩ := h
    have hsound (k : Prop) : Sound k { bidiLeft := left } :=
      ⟨⟨rfl, rfl, rfl⟩, fun h => absurd rfl h, fun e he => by cases he⟩
    exact ⟨hsound False, fun _ => hsound True⟩
  step c op h hen := by
    obtain ⟨c', hok, h'⟩ := h.1.step hen fun _ _ _ hk => hk.elim
    refine ⟨c', hok, h', fun hrej => ?_⟩
    rw [step_rejected h.1.lined hok, Bool.or_eq_false_iff] at hrej
    obtain ⟨c'', hok', h''⟩ := (h.2 hrej.1).step hen fun left reactions he _ => by
      simp [he, Op.isReject] at hrej
    obtain rfl : c'' = c' := Except.ok.inj (hok'.symm.trans hok)
    exact h''

/-- No step after the rejection breaks what it left in step. -/
theorem Sound.steps {d : EarlyConn} (h : c.Sound True) (hsteps : machine.Steps c d)
    (hrej : c.rejected = true) : d.Sound True := by
  have hkeep : d.Sound True ∧ d.rejected = true := by
    refine hsteps.keep (P := fun c => c.Sound True ∧ c.rejected = true) ?_ ⟨h, hrej⟩
    rintro s op t ⟨hs, hr⟩ hen hok
    obtain ⟨t', hok', ht⟩ := hs.step hen fun left reactions he _ => by
      subst he
      exact absurd (hr.symm.trans hen) (by simp)
    obtain rfl : t' = t := Except.ok.inj (hok'.symm.trans hok)
    exact ⟨ht, by rw [step_rejected hs.lined hok, hr, Bool.true_or]⟩
  exact hkeep.1

theorem Lined.label_inj (h : c.Lined) {e e' : EarlyStream} (he : e ∈ c.all) (he' : e' ∈ c.all)
    (hl : e.label = e'.label) : e = e' :=
  List.inj_on_of_nodup_map (h.labels ▸ List.nodup_range) he he' hl

/-- A waiting stream is not one of the open ones. -/
theorem Lined.label_ne (h : c.Lined) {e : EarlyStream} {entry : Int × EarlyStream}
    (he : e ∈ c.pendingStreams) (hentry : entry ∈ c.streams) : e.label ≠ entry.2.label := by
  have hnodup : (c.all.map (·.label)).Nodup := h.labels ▸ List.nodup_range
  rw [all, List.map_append] at hnodup
  intro heq
  refine List.disjoint_of_nodup_append hnodup ?_ (List.mem_map_of_mem he)
  rw [heq]
  exact List.mem_map_of_mem (List.mem_map_of_mem hentry)

theorem Lined.id_inj (h : c.Lined) {entry entry' : Int × EarlyStream} (he : entry ∈ c.streams)
    (he' : entry' ∈ c.streams) (hid : entry.1 = entry'.1) : entry = entry' := by
  have hnodup : (c.streams.map Prod.fst).Nodup := by
    rw [h.ids]
    exact List.nodup_range.map fun a b hab => by
      have : (4 : Int) * a = 4 * b := hab
      omega
  exact List.inj_on_of_nodup_map hnodup he he' hid

/-- Every open stream that owes something takes part in the next flush, wherever it starts,
and offers its bytes from the first one that has not been taken since, with the FIN once
they are all offered. -/
def Reoffered (c : EarlyConn) : Prop :=
  ∀ id e, (id, e) ∈ c.streams →
    e.send.ledger.consumed ++ e.stream.unsentBytes = bytesOf e.send.ledger.live ∧
    (e.Outstanding → ∀ dgramsWaiting mid,
      .stream id ∈
        selectChannels (c.streams.map fun entry => (entry.1, entry.2.stream)) dgramsWaiting mid ∧
      ∃ o, e.stream.offer = .ok (some o) ∧ o.data <+: e.stream.unsentBytes ∧
        (e.stream.unsentBytes ≠ [] → o.data ≠ []) ∧
        (o.fin = true ↔ e.stream.sendFin = true ∧ o.data = e.stream.unsentBytes))

theorem Sound.reoffered (h : c.Sound True) : c.Reoffered := by
  intro id e hentry
  have hmem : e ∈ c.all :=
    List.mem_append_left _ (List.mem_map.mpr ⟨(id, e), hentry, rfl⟩)
  obtain ⟨hsound, hstep⟩ := h.every e hmem
  obtain ⟨hgiven, hdone⟩ := hstep trivial
  refine ⟨hsound.agrees.consumed_append, fun hout dgramsWaiting mid => ?_⟩
  obtain ⟨released, held, hsplit⟩ := hsound.agrees
  have hsent : e.stream.sentFin = false := by
    by_contra hs
    have hs : e.stream.sentFin = true := by simpa using hs
    rcases hout with hbytes | ⟨-, hfin⟩
    · apply hbytes
      rw [← List.length_eq_zero_iff, ← hsplit.unsent]
      exact hdone hs
    · exact absurd (hs.symm.trans (hgiven.trans hfin)) (by simp)
  refine ⟨mem_selectChannels.mpr ⟨e.stream, List.mem_map.mpr ⟨(id, e), hentry, rfl⟩, hsent⟩, ?_⟩
  rcases hsound.offer with ⟨-, hnone, hfin⟩ | hoffer
  · rcases hout with hbytes | ⟨hs, -⟩
    · exact absurd hnone hbytes
    · exact absurd (hs.symm.trans hfin) (by simp)
  · exact hoffer

/-- What reopening and watermark callbacks keep holds, after a rejection, of the stream that
comes from a given open one. -/
theorem reject_follows (h : c.Sound False) (left : Nat) (reactions : Nat → Reaction)
    {P : EarlyStream → Prop} {entry : Int × EarlyStream} (hentry : entry ∈ c.streams)
    (hr : entry.2.Sound → P entry.2.revert) (hopen : ∀ e id, P e → P (e.opened id))
    (hcheck : ∀ e r, e.Sound → P e → P (e.checkWatermark r)) :
    (c.reject left reactions).Every fun x => x.Sound ∧ (x.label = entry.2.label → P x) := by
  have hmem {entry : Int × EarlyStream} (he : entry ∈ c.streams) : entry.2 ∈ c.all :=
    List.mem_append_left _ (List.mem_map_of_mem he)
  refine reject_every h.lined left reactions ?_ ?_ ?_ ?_
  · intro e he
    exact ⟨(h.every e (List.mem_append_right _ he)).1,
      fun hl => absurd hl (h.lined.label_ne he hentry)⟩
  · intro entry' he'
    refine ⟨(h.every _ (hmem he')).1.revert, fun hl => ?_⟩
    rw [h.lined.label_inj (hmem he') (hmem hentry) hl]
    exact hr (h.every _ (hmem hentry)).1
  · rintro e id ⟨he, hp⟩
    exact ⟨he.opened id, fun hl => hopen e id (hp hl)⟩
  · rintro e r ⟨he, hp⟩
    exact ⟨(EarlyStream.Kept.checkWatermark (k := False) ⟨he, False.elim⟩ r).1,
      fun hl => hcheck e r he (hp hl)⟩

theorem Lined.exists_label (h : c.Lined) {label : Nat} (hl : label < c.nextLabel) :
    ∃ x ∈ c.all, x.label = label := by
  have hmem : label ∈ c.all.map (·.label) := by
    rw [h.labels]
    exact List.mem_range.mpr hl
  exact List.mem_map.mp hmem

theorem Lined.label_lt (h : c.Lined) {e : EarlyStream} (he : e ∈ c.all) :
    e.label < c.nextLabel := by
  have hmem : e.label ∈ c.all.map (·.label) := List.mem_map_of_mem he
  rw [h.labels] at hmem
  exact List.mem_range.mp hmem

/-- After the rejection the streams that were open start over from their first byte that is
not acked. -/
theorem reject_restarts (h : c.Sound False) (left : Nat) (reactions : Nat → Reaction)
    {entry : Int × EarlyStream} (hentry : entry ∈ c.streams) :
    ∃ x ∈ (c.reject left reactions).all, x.label = entry.2.label ∧ entry.2.Restarts x := by
  have hevery := reject_follows h left reactions hentry (P := entry.2.Restarts)
    (fun he => he.restarts)
    (fun e id hr => ⟨hr.acked, hr.live, hr.unsent, hr.sendFin⟩)
    (fun e r he hr => hr.checkWatermark he r)
  have hlt : entry.2.label < (c.reject left reactions).nextLabel := by
    rw [(reject_fixed h.lined left reactions).2]
    exact h.lined.label_lt (List.mem_append_left _ (List.mem_map_of_mem hentry))
  obtain ⟨x, hx, hl⟩ := (h.reject left reactions False.elim).lined.exists_label hlt
  exact ⟨x, hx, hl, (hevery x hx).2 hl⟩

/-- A stream that had sent its FIN before the rejection owes it again, and is left out of
every flush once it is reopened. -/
theorem reject_stale (h : c.Sound False) (left : Nat) (reactions : Nat → Reaction)
    {entry : Int × EarlyStream} (hentry : entry ∈ c.streams)
    (hsent : entry.2.stream.sentFin = true) :
    ∃ d, machine.Steps (c.reject left reactions) d ∧ ¬ d.Reoffered := by
  have hrej := h.reject left reactions False.elim
  have hevery := reject_follows h left reactions hentry (P := EarlyStream.Stale)
    (fun he => ⟨hsent, rfl, he.fin hsent⟩)
    (fun e id hr => ⟨hr.sent, hr.given, hr.sendFin⟩)
    (fun e r _ hr => hr.checkWatermark r)
  obtain ⟨-, hfixed⟩ := reject_fixed h.lined left reactions
  generalize c.reject left reactions = c' at hrej hevery hfixed ⊢
  -- Once the peer allows enough streams, all of them are open.
  have hopen : (c'.extendMaxLocalStreamsBidi c'.pendingStreams.length).pendingStreams = [] :=
    checkPendingStreams_empty (Nat.le_add_left ..) (Nat.le_add_left ..)
  have hext := hrej.extend c'.pendingStreams.length
  have hstale : (c'.extendMaxLocalStreamsBidi c'.pendingStreams.length).Every fun x =>
      x.Sound ∧ (x.label = entry.2.label → x.Stale) :=
    hevery.extend (fun e id he => ⟨he.1.opened id,
      fun hl => ⟨(he.2 hl).sent, (he.2 hl).given, (he.2 hl).sendFin⟩⟩) _
  have hlt : entry.2.label <
      (c'.extendMaxLocalStreamsBidi c'.pendingStreams.length).nextLabel := by
    rw [EarlyConn.extendMaxLocalStreamsBidi, (checkPendingStreams_fixed _ _).2]
    exact hfixed ▸ h.lined.label_lt (List.mem_append_left _ (List.mem_map_of_mem hentry))
  obtain ⟨x, hx, hl⟩ := hext.lined.exists_label hlt
  have hx' := (hstale x hx).2 hl
  rw [all, hopen, List.append_nil] at hx
  obtain ⟨⟨id, x'⟩, hmem, rfl⟩ := List.mem_map.mp hx
  refine ⟨_, .tail .refl (i := .extendMaxLocalStreamsBidi c'.pendingStreams.length) trivial rfl, ?_⟩
  intro hre
  obtain ⟨hsel, -⟩ := (hre id x' hmem).2 (.inr ⟨hx'.sendFin, hx'.given⟩) false 0
  obtain ⟨s, hs, hfin⟩ := mem_selectChannels.mp hsel
  obtain ⟨entry', hentry', he⟩ := List.mem_map.mp hs
  obtain ⟨rfl, rfl⟩ := Prod.mk.inj he
  have hsame : entry' = (entry'.1, x') := hext.lined.id_inj hentry' hmem rfl
  rw [hsame] at hfin
  exact absurd (hx'.sent.symm.trans hfin) (by simp)

/-- A rejection of early data, after any history of opening streams, sending, finishing,
acks and flushes. In every later state the open streams and the waiting ones after them
are in the order they were opened in, under new ids in that order. Each stream that was
open starts over from its first byte that is not acked. Every stream is offered again in
full, FIN included, exactly if none of those open had sent its FIN. -/
theorem reject_reoffers (h : machine.Reachable c) (hr : c.rejected = false) (left : Nat)
    (reactions : Nat → Reaction) :
    (∀ d, machine.Steps (c.reject left reactions) d → d.Lined) ∧
    (∀ entry ∈ c.streams, ∃ x ∈ (c.reject left reactions).all,
      x.label = entry.2.label ∧ entry.2.Restarts x) ∧
    ((∀ d, machine.Steps (c.reject left reactions) d → d.Reoffered) ↔
      ∀ entry ∈ c.streams, entry.2.stream.sentFin = false) := by
  obtain ⟨hsound, hstep⟩ := sound_inductive.reachable h
  have hreach : machine.Reachable (c.reject left reactions) :=
    h.step (i := .reject left reactions) hr rfl
  refine ⟨?_, ?_, ?_, ?_⟩
  · intro d hd
    exact (sound_inductive.reachable (hreach.steps hd)).1.lined
  · exact fun entry hentry => reject_restarts hsound left reactions hentry
  · intro hall entry hentry
    by_contra hsent
    obtain ⟨d, hd, hnot⟩ := reject_stale hsound left reactions hentry (by simpa using hsent)
    exact hnot (hall d hd)
  · intro hfin d hd
    exact (((hstep hr).reject left reactions fun _ => hfin).steps hd
      (reject_fixed hsound.lined left reactions).1).reoffered

/-- Two streams, one open with a byte written and one waiting, when early data is rejected. -/
theorem reject_reoffers_partly_written :
    ∃ c, machine.Reachable c ∧ c.streams.length = 1 ∧ c.pendingStreams.length = 1 ∧
      ∀ d, machine.Steps (c.reject 5 fun _ => .done) d → d.Reoffered := by
  have h0 : machine.Reachable { bidiLeft := 1 } := .initial ⟨1, rfl⟩
  have hrun : machine.run { bidiLeft := 1 } [.openStream false, .openStream false,
    .apply 0 (.send ⟨[1, 2], none⟩ .done), .apply 1 (.send ⟨[3], none⟩ .done), .sendFin 0,
    .turn 0 (some 1) .done] = some _ := rfl
  have h := h0.run hrun
  exact ⟨_, h, rfl, rfl, (reject_reoffers h rfl 5 fun _ => .done).2.2.mpr (by decide)⟩

/-- A stream that sent its data and FIN as early data is reopened with both unsent, and no
flush selects it. -/
theorem reject_forgets_fin :
    ∃ c, machine.Reachable c ∧ c.rejected = false ∧
      ∃ e, (c.reject 1 fun _ => .done).streams = [(0, e)] ∧
        e.stream.unsentBytes = [1, 2] ∧ e.stream.sendFin = true ∧ e.Outstanding ∧
        ∀ dgramsWaiting mid, .stream 0 ∉ selectChannels [(0, e.stream)] dgramsWaiting mid := by
  have h0 : machine.Reachable { bidiLeft := 1 } := .initial ⟨1, rfl⟩
  have hrun : machine.run { bidiLeft := 1 } [.openStream false,
    .apply 0 (.send ⟨[1, 2], none⟩ .done), .sendFin 0, .turn 0 (some 2) .done] = some _ := rfl
  refine ⟨_, h0.run hrun, rfl, _, rfl, rfl, rfl, .inr ⟨rfl, rfl⟩, ?_⟩
  intro dgramsWaiting mid
  rw [mem_selectChannels]
  rintro ⟨s, hs, hfin⟩
  obtain ⟨-, rfl⟩ := Prod.mk.inj (List.mem_singleton.mp hs)
  exact absurd hfin (by decide)

end EarlyConn

end Libquic
