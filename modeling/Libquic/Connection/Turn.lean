import Libquic.Connection.FlushSpec

/-!
# What one turn of a flush does to the streams

A turn of the loop of `flush_packets` offers data of at most one stream, changes no other,
and puts no stream back into the loop but that one, after a packet.
-/
namespace Libquic

open Lib

variable {Addr δ : Type}

/-- The calls after which the stream is told how much was written. -/
def Nwrite.takes : Nwrite → Bool
  | .packet .. | .error .writeMore => true
  | _ => false

/-- The streams among the channels, in order. -/
def streamIds (channels : List Channel) : List Int :=
  channels.filterMap fun
    | .stream id => some id
    | _ => none

@[simp] theorem streamIds_nil : streamIds [] = [] := rfl

@[simp] theorem streamIds_stream (id : Int) (channels : List Channel) :
    streamIds (.stream id :: channels) = id :: streamIds channels := rfl

@[simp] theorem streamIds_datagrams (channels : List Channel) :
    streamIds (.datagrams :: channels) = streamIds channels := rfl

@[simp] theorem streamIds_pseudo (channels : List Channel) :
    streamIds (.pseudo :: channels) = streamIds channels := rfl

theorem mem_streamIds {id : Int} {channels : List Channel} :
    id ∈ streamIds channels ↔ .stream id ∈ channels := by
  simp only [streamIds, List.mem_filterMap]
  constructor
  · rintro ⟨channel, hmem, hid⟩
    cases channel with
    | stream id' =>
      cases hid
      exact hmem
    | datagrams => cases hid
    | pseudo => cases hid
  · intro h
    exact ⟨_, h, rfl⟩

theorem streamIds_perm {l l' : List Channel} (h : l.Perm l') :
    (streamIds l).Perm (streamIds l') := h.filterMap _

theorem streamIds_sublist {l l' : List Channel} (h : l.Sublist l') :
    (streamIds l).Sublist (streamIds l') := h.filterMap _

namespace Flush

variable {Q : DgramChannel δ} {i : Nat} {w : Write Addr} {source : Channel} {waiting : Bool}
  {f : FlushLoop} {x y : Flush Addr δ} {id : Int} {s t : Stream}

/-! ## Looking streams up -/

theorem lookup_congr (h : y.conn.streams = x.conn.streams) (id : Int) :
    y.lookup id = x.lookup id := by
  rw [lookup, lookup, h]

theorem lookup_setStream (x : Flush Addr δ) (id id' : Int) (t : Stream) :
    (x.setStream id t).lookup id' = (x.lookup id').map fun s => if id' = id then t else s := by
  simp only [lookup, setStream, List.find?_map, Option.map_map]
  have hfst : ((fun entry : Int × Stream => decide (entry.1 = id')) ∘
      fun entry => if entry.1 = id then (id, t) else entry) =
        fun entry => decide (entry.1 = id') := by
    funext entry
    grind
  rw [hfst]
  cases hfind : x.conn.streams.find? fun entry => decide (entry.1 = id') with
  | none => rfl
  | some entry =>
    have := List.find?_some hfind
    grind

theorem lookup_setStream_self (h : x.lookup id = some s) (t : Stream) :
    (x.setStream id t).lookup id = some t := by
  simp [lookup_setStream, h]

/-- What is found after a stream has been replaced is the new one, or what was there. -/
theorem lookup_setStream_cases {id' : Int} {t : Stream}
    (h : (x.setStream id t).lookup id' = some s) :
    id' = id ∧ s = t ∨ id' ≠ id ∧ x.lookup id' = some s := by
  rw [lookup_setStream] at h
  obtain ⟨s', hs', hite⟩ := Option.map_eq_some_iff.mp h
  split_ifs at hite with hid
  · exact .inl ⟨hid, hite.symm⟩
  · exact .inr ⟨hid, hite ▸ hs'⟩

theorem setStream_setStream (x : Flush Addr δ) (id : Int) (s t : Stream) :
    (x.setStream id s).setStream id t = x.setStream id t := by
  have hcomp : ((fun entry : Int × Stream => if entry.1 = id then (id, t) else entry) ∘
      fun entry => if entry.1 = id then (id, s) else entry) =
      fun entry => if entry.1 = id then (id, t) else entry := by
    funext entry
    grind
  simp only [setStream, List.map_map, hcomp]

theorem hasUnsent_congr (h : y.conn = x.conn) (source : Channel) :
    y.hasUnsent Q source = x.hasUnsent Q source := by
  cases source <;> simp [hasUnsent, lookup, h]

theorem requeue_congr (h : y.conn = x.conn) (source : Channel) (waiting : Bool)
    (channels : List Channel) :
    y.requeue Q source waiting channels = x.requeue Q source waiting channels := by
  simp only [requeue, hasUnsent_congr h]

/-! ## From the end of a turn backwards -/

theorem wrote_cases (h : x.wrote w (.stream id) = .ok y) :
    (y = x ∧ (x.lookup id = none ∨ w.ndatalen = none)) ∨
      ∃ s n t, x.lookup id = some s ∧ w.ndatalen = some n ∧
        s.wrote (Stream.react true w.reaction) n = .ok t ∧ y = x.setStream id t := by
  rw [wrote] at h
  cases hs : x.lookup id with
  | none => exact .inl ⟨by simpa [hs] using h.symm, .inl rfl⟩
  | some s =>
    cases hn : w.ndatalen with
    | none => exact .inl ⟨by simpa [hs, hn] using h.symm, .inr rfl⟩
    | some n =>
      simp only [hs, hn] at h
      obtain ⟨t, ht, h⟩ := bind_ok h
      exact .inr ⟨s, n, t, rfl, rfl, ht, (Except.ok.inj h).symm⟩

/-- A channel goes back into the loop only if it has data left. -/
theorem requeue_streamIds {channels l : List Channel}
    (h : x.requeue Q source waiting channels = .ok l) :
    streamIds l = streamIds channels ∨
      x.hasUnsent Q source = true ∧ (streamIds l).Perm (streamIds (source :: channels)) := by
  unfold requeue at h
  split_ifs at h with hwait hpseudo hunsent hempty
  · cases h
    exact .inl rfl
  · cases h
    grind [streamIds]
  · cases h
    refine .inr ⟨hunsent, streamIds_perm ?_⟩
    have hdrop : channels.dropLast ++ channels.drop (channels.length - 1) = channels := by
      rw [List.dropLast_eq_take, List.take_append_drop]
    rw [List.append_assoc, List.singleton_append]
    refine List.perm_middle.trans ?_
    rw [hdrop]
  · cases h
    exact .inl rfl

theorem requeue_again {channels l : List Channel}
    (h : x.requeue Q (.stream id) false channels = .ok l)
    (hunsent : x.hasUnsent Q (.stream id) = true) : id ∈ streamIds l := by
  rw [mem_streamIds]
  simp only [requeue, hunsent, if_true] at h
  split_ifs at h <;> grind

/-- The streams still to come in the flush. -/
def queuedIds (x : Flush Addr δ) : List Int := (x.loop.map (streamIds ·.channels)).getD []

theorem queuedIds_of_loop {g : FlushLoop} (h : x.loop = some g) :
    x.queuedIds = streamIds g.channels := by
  simp [queuedIds, h]

theorem queuedIds_returned (h : x.loop = none) : x.queuedIds = [] := by
  simp [queuedIds, h]

/-- After a packet the flush is over, or it goes on with the channels that `requeue` leaves. -/
structure GoesOn (Q : DgramChannel δ) (source : Channel) (waiting : Bool) (f : FlushLoop)
    (x y : Flush Addr δ) : Prop where
  conn : y.conn = x.conn
  loop : y.loop = none ∨ ∃ g, y.loop = some g ∧ g.inDatagrams = f.inDatagrams ∧
    x.requeue Q source waiting f.channels = .ok g.channels

theorem GoesOn.requeued {g : FlushLoop} (h : GoesOn Q source waiting f x y)
    (hg : y.loop = some g) : x.requeue Q source waiting f.channels = .ok g.channels := by
  obtain ⟨g', hg', -, hreq⟩ := h.loop.resolve_left (by simp [hg])
  obtain rfl : g = g' := by simpa [hg] using hg'
  exact hreq

/-- The next turn offers `o`, data of the stream `id`, to ngtcp2. -/
structure Offers (x : Flush Addr δ) (id : Int) (s : Stream) (o : Offer) : Prop where
  turn : ∃ f rest, x.loop = some f ∧ f.inDatagrams = none ∧ f.channels = .stream id :: rest
  stream : x.lookup id = some s
  offer : s.offer = .ok (some o)

theorem Offers.offered_eq {o : Offer} (h : x.Offers id s o) : x.offered = o.data.length := by
  obtain ⟨⟨f, rest, hx, -, hch⟩, hs, ho⟩ := h
  simp [offered, hx, hch, hs, Stream.offeredSize, ho]

variable [Inhabited Addr]

theorem send_conn {transport : Transport} {on : Bool} (h : x.send i transport = .ok (on, y)) :
    y.conn = x.conn := by
  unfold Flush.send at h
  split at h
  · cases h
  · obtain ⟨⟨result, batch⟩, -, h⟩ := bind_ok h
    dsimp only at h
    split at h
    · cases h
      rfl
    · obtain ⟨b, -, h⟩ := bind_ok h
      cases h
      rfl
    · cases h
      rfl

theorem finish_cases {transport : Transport} (h : x.finish i transport = .ok y) :
    y.conn = x.conn ∧ y.loop = none := by
  unfold Flush.finish at h
  split at h
  · cases h
    exact ⟨rfl, rfl⟩
  · obtain ⟨⟨on, z⟩, hz, h⟩ := bind_ok h
    have hconn : z.conn = x.conn := send_conn hz
    cases h
    exact ⟨hconn, rfl⟩

theorem proceed_goesOn {transport : Transport}
    (h : x.proceed Q i source waiting transport f = .ok y) : GoesOn Q source waiting f x y := by
  unfold Flush.proceed at h
  split at h
  · exact ⟨(finish_cases h).1, .inl (finish_cases h).2⟩
  · obtain ⟨l, hl, h⟩ := bind_ok h
    cases h
    exact ⟨rfl, .inr ⟨_, rfl, rfl, hl⟩⟩

theorem packetWritten_cases {data : Bytes} {ecn : UInt8}
    (h : x.packetWritten Q i source waiting w data ecn f = .ok y) :
    ∃ z, x.wrote w source = .ok z ∧ GoesOn Q source waiting f z y := by
  obtain ⟨z, hz, h⟩ := bind_ok h
  obtain ⟨batch, -, h⟩ := bind_ok h
  refine ⟨z, hz, ?_⟩
  dsimp only at h
  split at h
  · obtain ⟨⟨on, u⟩, hu, h⟩ := bind_ok h
    have hconn : u.conn = z.conn := send_conn (x := { z with batch := batch }) hu
    dsimp only at h
    split at h
    · cases h
      exact ⟨hconn, .inl rfl⟩
    · split at h
      · cases h
      · obtain ⟨hy, hloop⟩ := proceed_goesOn h
        exact ⟨hy.trans hconn, by simpa only [requeue_congr hconn] using hloop⟩
  · obtain ⟨hy, hloop⟩ := proceed_goesOn h
    exact ⟨hy, hloop⟩

/-- What ngtcp2 took is passed on to the stream, and the loop goes on with some of its
channels, or with those that `requeue` leaves after a packet. -/
theorem conclude_cases {nwrite : Nwrite}
    (h : x.conclude Q i source waiting nwrite w f = .ok y) :
    ∃ z, (if nwrite.takes then x.wrote w source = .ok z else z = x) ∧
      y.conn.streams = z.conn.streams ∧
      ((∃ data ecn, nwrite = .packet data ecn) ∧ GoesOn Q source waiting f z y ∨
        (¬ ∃ data ecn, nwrite = .packet data ecn) ∧
          ∀ g, y.loop = some g → (streamIds g.channels).Sublist (streamIds f.channels)) := by
  cases nwrite with
  | packet data ecn =>
    obtain ⟨z, hz, hgoes⟩ := packetWritten_cases h
    exact ⟨z, hz, congrArg FlushConn.streams hgoes.conn, .inl ⟨⟨data, ecn, rfl⟩, hgoes⟩⟩
  | zero =>
    have hlast := streamIds_sublist (List.drop_sublist (f.channels.length - 1) f.channels)
    refine ⟨x, rfl, ?_⟩
    cases source <;> cases h <;> simp [hlast]
  | error e =>
    have htakes : (Nwrite.error e).takes = true ↔ e = .writeMore := by
      cases e <;> simp [Nwrite.takes]
    have hpacket : ¬ ∃ data ecn, Nwrite.error e = .packet data ecn := by simp
    unfold Flush.conclude at h
    dsimp only at h
    split_ifs at h with hend hfatal hmore hdgrams hunsent hnone
    · cases h
      exact ⟨x, by grind, rfl, .inr ⟨hpacket, by simp⟩⟩
    · cases h
      refine ⟨x, ?_, rfl, .inr ⟨hpacket, by simp⟩⟩
      rw [if_neg]
      intro ht
      obtain rfl := htakes.mp ht
      simp [Ngtcp2Error.recoverable] at hfatal
    · cases h
      subst hdgrams
      exact ⟨x, by rw [if_pos (htakes.mpr hmore)]; rfl, rfl, .inr ⟨hpacket, by simp⟩⟩
    · cases h
      subst hdgrams
      exact ⟨x, by rw [if_pos (htakes.mpr hmore)]; rfl, rfl, .inr ⟨hpacket, by simp⟩⟩
    · obtain ⟨z, hz, h⟩ := bind_ok h
      cases h
      exact ⟨z, by rw [if_pos (htakes.mpr hmore)]; exact hz, rfl, .inr ⟨hpacket, by simp⟩⟩
    · cases h
      exact ⟨x, by rw [if_neg (mt htakes.mp hmore)], rfl, .inr ⟨hpacket, by simp⟩⟩

/-! ## A turn -/

/-- What becomes of the stream whose data was offered. -/
def Accounts (w : Write Addr) (s : Stream) (o : Offer) (t : Stream) : Prop :=
  w.ndatalen = none ∧ t = s ∨
    ∃ n, w.ndatalen = some n ∧ (s.noteFin o n).wrote (Stream.react true w.reaction) n = .ok t

/-- The turn has offered `o`, data of the stream `id`, which is now `t`; `rest` are the
streams after it. It comes to its turn again exactly if the call has made a packet, it has
buffers left, sent or not, and the flush goes on. -/
structure Offered (w : Write Addr) (x y : Flush Addr δ) (id : Int) (s : Stream) (o : Offer)
    (t : Stream) (rest : List Int) : Prop where
  accounts : Accounts w s o t
  streams : y.conn.streams = (x.setStream id t).conn.streams
  queue : x.queuedIds = id :: rest
  left : y.queuedIds.Subperm rest ∨
    (∃ data ecn, w.nwrite = .packet data ecn) ∧ t.userBuffers ≠ [] ∧ y.queuedIds.Perm x.queuedIds
  again : (∃ data ecn, w.nwrite = .packet data ecn) → t.userBuffers ≠ [] → y.loop ≠ none →
    id ∈ y.queuedIds

/-- What a turn of the loop does. -/
inductive Turn (w : Write Addr) (x y : Flush Addr δ) : Prop where
  | other (streams : y.conn.streams = x.conn.streams) (left : y.queuedIds.Subperm x.queuedIds)
  | offered {id : Int} {s t : Stream} {o : Offer} {rest : List Int} (offers : x.Offers id s o)
      (offered : Offered w x y id s o t rest)

theorem conclude_other {nwrite : Nwrite} (h : x.conclude Q i source waiting nwrite w f = .ok y)
    (hsrc : streamIds [source] = []) :
    y.conn.streams = x.conn.streams ∧ y.queuedIds.Subperm (streamIds f.channels) := by
  obtain ⟨z, hz, hstreams, hloop⟩ := conclude_cases h
  have hids (l : List Channel) : streamIds (source :: l) = streamIds l := by
    cases source with
    | stream id => cases hsrc
    | datagrams => rfl
    | pseudo => rfl
  obtain rfl : z = x := by
    split at hz
    · cases source with
      | stream id => cases hsrc
      | datagrams => exact (Except.ok.inj hz).symm
      | pseudo => exact (Except.ok.inj hz).symm
    · exact hz
  refine ⟨hstreams, ?_⟩
  rcases hg : y.loop with _ | g
  · simp [queuedIds_returned hg]
  rw [queuedIds_of_loop hg]
  rcases hloop with ⟨-, hgoes⟩ | ⟨-, hsub⟩
  · rcases requeue_streamIds (hgoes.requeued hg) with heq | ⟨-, hperm⟩
    · rw [heq]
    · rw [hids] at hperm
      exact hperm.subperm
  · exact (hsub g hg).subperm

/-- The turn of a stream with something to offer. -/
theorem iterate_offered {o : Offer} (h : x.iterate Q i w = .ok y) (hoffers : x.Offers id s o)
    (hw : w.ndatalen ≠ none → w.nwrite.takes = true) :
    ∃ t rest, Offered w x y id s o t rest := by
  obtain ⟨⟨f, rest, hx, hin, hch⟩, hs, ho⟩ := hoffers
  have hids : x.queuedIds = id :: streamIds rest := by simp [queuedIds_of_loop hx, hch]
  simp only [Flush.iterate, hx, hin, hch] at h
  simp only [Flush.streamTurn, hs, ho, ok_bind] at h
  obtain ⟨z, hz, hstreams, hloop⟩ := conclude_cases h
  have hnoted : ({ x with conn.path := w.path }.setStream id
      (w.ndatalen.elim s (s.noteFin o))).lookup id = some (w.ndatalen.elim s (s.noteFin o)) :=
    lookup_setStream_self (x := { x with conn.path := w.path }) hs _
  obtain ⟨t, htaken, hset⟩ : ∃ t, Accounts w s o t ∧
      z.conn.streams = (x.setStream id t).conn.streams := by
    by_cases hnone : w.ndatalen = none
    · refine ⟨s, .inl ⟨hnone, rfl⟩, ?_⟩
      split at hz
      · rcases wrote_cases hz with ⟨rfl, -⟩ | ⟨s', n, t, -, hn, -⟩
        · simp [hnone, setStream]
        · simp [hnone] at hn
      · simp [hz, hnone, setStream]
    · rw [if_pos (hw hnone)] at hz
      rcases wrote_cases hz with ⟨-, hno | hno⟩ | ⟨s', n, t, hs', hn, ht, rfl⟩
      · simp [hnoted] at hno
      · exact (hnone hno).elim
      · obtain rfl : s.noteFin o n = s' := by simpa [hn] using hnoted.symm.trans hs'
        exact ⟨t, .inr ⟨n, hn, ht⟩, by rw [setStream_setStream]; rfl⟩
  have hunsent : z.hasUnsent Q (.stream id) = !t.userBuffers.isEmpty := by
    simp [hasUnsent, lookup_congr hset, lookup_setStream_self hs]
  have hfilled : z.hasUnsent Q (.stream id) = true ↔ t.userBuffers ≠ [] := by simp [hunsent]
  refine ⟨t, streamIds rest, htaken, hstreams.trans hset, hids, ?_, ?_⟩
  all_goals rcases hg : y.loop with _ | g
  · simp [queuedIds_returned hg]
  · rw [queuedIds_of_loop hg]
    rcases hloop with ⟨hpacket, hgoes⟩ | ⟨-, hsub⟩
    · rcases requeue_streamIds (hgoes.requeued hg) with heq | ⟨hsome, hperm⟩
      · exact .inl (heq ▸ List.Subperm.refl _)
      · exact .inr ⟨hpacket, hfilled.mp hsome, hids ▸ hperm⟩
    · exact .inl (hsub g hg).subperm
  · simp
  · intro hpacket hbufs _
    rw [queuedIds_of_loop hg]
    rcases hloop with ⟨-, hgoes⟩ | ⟨hnone, -⟩
    · exact requeue_again (hgoes.requeued hg) (hfilled.mpr hbufs)
    · exact (hnone hpacket).elim

theorem datagramTurn_other {more : Bool} (h : x.datagramTurn Q i waiting more w f = .ok y) :
    y.conn.streams = x.conn.streams ∧ y.queuedIds.Subperm (streamIds f.channels) := by
  unfold Flush.datagramTurn at h
  cases hq : x.conn.dgrams with
  | none => simp [hq] at h
  | some q =>
    simp only [hq] at h
    generalize (if w.accepted = true then _ else _ : δ) = q' at h
    generalize (if more = true then Nwrite.error .writeMore else .zero) = nwrite at h
    split_ifs at h
    · obtain ⟨hstreams, hleft⟩ := conclude_other h rfl
      exact ⟨hstreams, hleft⟩
    · cases h
      exact ⟨rfl, List.Subperm.refl _⟩
    · obtain ⟨hstreams, hleft⟩ := conclude_other h rfl
      exact ⟨hstreams, hleft⟩

/-- Every turn of the loop, given that ngtcp2 takes data only with a packet or when it asks
for more. -/
theorem iterate_turn (h : x.iterate Q i w = .ok y)
    (hw : w.ndatalen ≠ none → w.nwrite.takes = true) : Turn w x y := by
  have hiter := h
  unfold Flush.iterate at h
  split at h
  next hloop =>
    cases h
    exact .other rfl (List.Subperm.refl _)
  next f hloop =>
    have hqueue := queuedIds_of_loop hloop
    split at h
    next waiting more hin =>
      obtain ⟨hstreams, hleft⟩ := datagramTurn_other h
      exact .other hstreams (hqueue ▸ hleft)
    next hin hch =>
      obtain ⟨hconn, hnone⟩ := finish_cases h
      exact .other (congrArg FlushConn.streams hconn) (by simp [queuedIds_returned hnone])
    next rest hin hch =>
      cases h
      exact .other rfl (by rw [hqueue, hch]; exact List.Subperm.refl _)
    next id rest hin hch =>
      have hids : x.queuedIds = id :: streamIds rest := by simp [hqueue, hch]
      cases hs : x.lookup id with
      | none => simp [Flush.streamTurn, hs] at h
      | some s =>
        cases ho : s.offer with
        | error e =>
          simp only [Flush.streamTurn, hs, ho] at h
          cases h
        | ok offer =>
          cases offer with
          | none =>
            simp only [Flush.streamTurn, hs, ho, ok_bind] at h
            cases h
            exact .other rfl (hids ▸ (List.sublist_cons_self ..).subperm)
          | some o =>
            have hoffers : x.Offers id s o := ⟨⟨f, rest, hloop, hin, hch⟩, hs, ho⟩
            obtain ⟨t, rest, hoffered⟩ := iterate_offered hiter hoffers hw
            exact .offered hoffers hoffered
    next rest hin hch =>
      obtain ⟨hstreams, hleft⟩ := conclude_other (x := { x with conn.path := w.path }) h rfl
      exact .other hstreams (by simpa [hqueue, hch] using hleft)

/-- A packet written on a stream's turn that does not fill the batch. -/
theorem iterate_packet {o : Offer} {rest : List Channel} {n : Nat} {b : SendBatch Addr}
    {data : Bytes} {ecn : UInt8} (hl : x.loop = some f) (hin : f.inDatagrams = none)
    (hch : f.channels = .stream id :: rest) (hs : x.lookup id = some s)
    (ho : s.offer = .ok (some o)) (hw : w.nwrite = .packet data ecn) (hn : w.ndatalen = some n)
    (ht : (s.noteFin o n).wrote (Stream.react true w.reaction) n = .ok t)
    (hpush : x.batch.push f.bufPos data ⟨ecn, w.path⟩ = .ok b) (hb : b.nPackets ≠ maxBatch) :
    x.iterate Q i w = Flush.proceed Q i (.stream id) false w.transport
      { f with
        channels := rest, partiallyFilled := false
        bufPos := f.bufPos + data.length, streamPackets := f.streamPackets + 1 }
      ({ x with conn.path := w.path, batch := b }.setStream id t) := by
  have hnoted := lookup_setStream_self
    (x := { x with conn.path := w.path, loop := some f }) hs (s.noteFin o n)
  have hpush' : ({ x with conn.path := w.path, loop := some f }.setStream id t).batch.push f.bufPos
      data ⟨ecn, ({ x with conn.path := w.path, loop := some f }.setStream id t).conn.path⟩ =
        .ok b := hpush
  simp only [Flush.iterate, hl, hin, hch, Flush.streamTurn, hs, ho, ok_bind, Flush.conclude, hw,
    Flush.packetWritten, Flush.wrote, hn, Option.elim_some, hnoted, ht, setStream_setStream,
    pure_eq_ok, hpush', if_neg hb]
  rfl

/-! ## The last packet -/

/-- The flush is over after a packet: it is the last one allowed, or it fills the batch, and
sending that is not a success. -/
def LastPacket (x : Flush Addr δ) (f : FlushLoop) (data : Bytes) (mark : Mark Addr)
    (transport : Transport) : Prop :=
  f.streamPackets + 1 = f.maxStreamPackets ∨ x.batch.nPackets + 1 = maxBatch ∧
    ∀ full left, x.batch.push f.bufPos data mark = .ok full →
      full.hand transport ≠ .ok (.ok, left)

omit [Inhabited Addr] in
theorem nPackets_push {b b' : SendBatch Addr} {pos : Nat} {data : Bytes} {mark : Mark Addr}
    (h : b.push pos data mark = .ok b') : b'.nPackets = b.nPackets + 1 := by
  unfold SendBatch.push at h
  split at h
  · cases h
  · cases h
    rfl

omit [Inhabited Addr] in
theorem wrote_batch (h : x.wrote w source = .ok y) :
    y.batch = x.batch ∧ y.conn.path = x.conn.path := by
  cases source with
  | stream id =>
    rcases wrote_cases h with ⟨rfl, -⟩ | ⟨s, n, t, -, -, -, rfl⟩ <;> exact ⟨rfl, rfl⟩
  | datagrams =>
    cases h
    exact ⟨rfl, rfl⟩
  | pseudo =>
    cases h
    exact ⟨rfl, rfl⟩

/-- `send` lets the caller go on exactly if all packets were sent. -/
theorem send_on {transport : Transport} {on : Bool} (h : x.send i transport = .ok (on, y)) :
    on = true ↔ ∃ left, x.batch.hand transport = .ok (.ok, left) := by
  unfold Flush.send at h
  split at h
  · cases h
  · obtain ⟨⟨result, batch⟩, hhand, h⟩ := bind_ok h
    rw [hhand]
    dsimp only at h
    split at h
    next =>
      cases h
      simp
    next =>
      obtain ⟨b, -, h⟩ := bind_ok h
      cases h
      simp
    next hok _ =>
      cases h
      simpa using hok

theorem proceed_over {transport : Transport}
    (h : x.proceed Q i source waiting transport f = .ok y) :
    y.loop = none ↔ f.streamPackets = f.maxStreamPackets := by
  unfold Flush.proceed at h
  split at h
  next hlast => exact iff_of_true (finish_cases h).2 hlast
  next hmore =>
    obtain ⟨l, -, h⟩ := bind_ok h
    cases h
    simpa using hmore

theorem packetWritten_over {data : Bytes} {ecn : UInt8}
    (h : x.packetWritten Q i source waiting w data ecn f = .ok y) :
    y.loop = none ↔ x.LastPacket f data ⟨ecn, x.conn.path⟩ w.transport := by
  obtain ⟨z, hz, h⟩ := bind_ok h
  obtain ⟨full, hpush, h⟩ := bind_ok h
  obtain ⟨hbatch, hpath⟩ := wrote_batch hz
  rw [hbatch, hpath] at hpush
  have hcount := nPackets_push hpush
  dsimp only at h
  split at h
  next hfull =>
    obtain ⟨⟨on, u⟩, hu, h⟩ := bind_ok h
    have hon := send_on (x := { z with batch := full }) hu
    have hlast : x.LastPacket f data ⟨ecn, x.conn.path⟩ w.transport ↔
        f.streamPackets + 1 = f.maxStreamPackets ∨ on = false := by
      have hsent : on = false ↔ ∀ left, full.hand w.transport ≠ .ok (.ok, left) := by
        rw [← Bool.not_eq_true, hon, not_exists]
      refine or_congr_right ⟨fun hstop => hsent.mpr fun left => hstop.2 full left hpush,
        fun hoff => ⟨hcount.symm.trans hfull, fun full' left hpush' => ?_⟩⟩
      obtain rfl : full = full' := Except.ok.inj (hpush.symm.trans hpush')
      exact hsent.mp hoff left
    rw [hlast]
    dsimp only at h
    cases on with
    | false =>
      cases h
      exact iff_of_true rfl (.inr rfl)
    | true =>
      simp only [Bool.not_true, Bool.false_eq_true, if_false] at h
      split at h
      · cases h
      · simpa using proceed_over h
  next hroom =>
    rw [proceed_over h]
    refine ⟨.inl, fun hlast => hlast.resolve_right fun hfull => hroom ?_⟩
    exact hcount.trans hfull.1

/-- The flush is over after the turn of a stream in which ngtcp2 writes a packet. -/
theorem iterate_over {o : Offer} {data : Bytes} {ecn : UInt8} (h : x.iterate Q i w = .ok y)
    (hloop : x.loop = some f) (hoffers : x.Offers id s o) (hw : w.nwrite = .packet data ecn) :
    y.loop = none ↔ x.LastPacket f data ⟨ecn, w.path⟩ w.transport := by
  obtain ⟨⟨g, rest, hx, hin, hch⟩, hs, ho⟩ := hoffers
  obtain rfl : f = g := by simpa [hloop] using hx
  simp only [Flush.iterate, hx, hin, hch] at h
  simp only [Flush.streamTurn, hs, ho, ok_bind, Flush.conclude, hw] at h
  exact packetWritten_over h

end Flush

end Libquic
