import Mathlib.Data.List.TakeWhile
import Libquic.Lib.Memory
import Libquic.Stream.Basic

/-!
# Sending a batch of packets

`Endpoint::send_packets` on the arrays of a send batch: the packets' bytes one after
another, their sizes and their ECN values. The transport is a manual router, a closed
socket, or a socket that answers each send with any result and any count. Test hooks
and drop counters are left out.

What a batch keeps for each packet besides its bytes is only ever copied, so its type
`ε` is left open: it is the packet's ECN value, to which a caller may add history.
-/
namespace Libquic

open Lib Lib.Memory

variable {ε : Type}

structure Packet (ε : Type) where
  data : Bytes
  ecn : ε
  deriving DecidableEq, Repr

def Packet.size (p : Packet ε) : Nat := p.data.length

/-- `io_result`, by the predicates that the code distinguishes. -/
inductive IoResult where
  | ok | blocked | tooBig | noBuffers | unreachable
  | failure (code : Nat)
  deriving DecidableEq, Repr

/-- `buf`, `bufsize` and `ecn`. -/
structure Arrays (ε : Type) where
  buf : Bytes
  size : List Nat
  ecn : List ε
  deriving DecidableEq, Repr

/-- `MAX_BATCH`, where the socket can send several packets at once. -/
def maxBatch : Nat := 24

namespace Arrays

/-- The packets as a reader of the arrays finds them, from index `i` and offset `pos` on. -/
def readFrom [Inhabited ε] (a : Arrays ε) : Nat → Nat → Nat → List (Packet ε)
  | 0, _, _ => []
  | n + 1, i, pos =>
    let size := a.size.getD i 0
    ⟨(a.buf.drop pos).take size, a.ecn.getD i default⟩ :: readFrom a n (i + 1) (pos + size)

def read [Inhabited ε] (a : Arrays ε) (n : Nat) : List (Packet ε) := a.readFrom n 0 0

/-- The loop of `drop_packets_from` over `todo` packets from index `i` on. -/
def dropLoop [Inhabited ε] (minSize : Nat) : Nat → Nat → Nat → Nat → Nat → Arrays ε → Nat × Arrays ε
  | 0, _, kept, _, _, a => (kept, a)
  | todo + 1, i, kept, inPos, outPos, a =>
    let size := a.size.getD i 0
    if size < minSize then
      dropLoop minSize todo (i + 1) (kept + 1) (inPos + size) (outPos + size)
        { buf := if outPos = inPos then a.buf else move a.buf outPos inPos size
          size := write a.size kept [size]
          ecn := write a.ecn kept [a.ecn.getD i default] }
    else dropLoop minSize todo (i + 1) kept (inPos + size) outPos a

/-- Removes every packet of at least `minSize` bytes; returns how many are left. -/
def dropPacketsFrom [Inhabited ε] (a : Arrays ε) (n minSize : Nat) : Nat × Arrays ε :=
  dropLoop minSize n 0 0 0 0 a

/-- Shift the unsent packets back to the beginning. -/
def shiftUnsent (a : Arrays ε) (sent n : Nat) : Arrays ε where
  buf := move a.buf 0 (a.size.take sent).sum ((a.size.drop sent).take (n - sent)).sum
  size := move a.size 0 sent (n - sent)
  ecn := move a.ecn 0 sent (n - sent)

end Arrays

/-- What packets are sent with. A router may throw at any packet; a socket's answer to
its `call`-th send of `n` packets is any result, and any count up to `n`. -/
inductive Transport where
  | manualRouting (throws : Nat → Bool)
  | closed
  | socket (send : (call n : Nat) → IoResult × Fin (n + 1))

/-- What `send_packets` returns and leaves behind. -/
structure SendResult (ε : Type) where
  result : IoResult
  arrays : Arrays ε
  nPkts : Nat
  /-- The value of `too_big`. -/
  tooBig : Nat := 0
  /-- The packets that the transport took, in order. -/
  wire : List (Packet ε)
  deriving DecidableEq, Repr

/-- `EIO` -/
def errIo : Nat := 5
/-- `EBADF` -/
def errBadf : Nat := 9

/-- Hand packets to the router until it throws. -/
def routeLoop (throws : Nat → Bool) : Nat → List (Packet ε) → List (Packet ε) × Bool
  | _, [] => ([], true)
  | i, p :: rest =>
    if throws i then ([], false)
    else
      let (wire, done) := routeLoop throws (i + 1) rest
      (p :: wire, done)

/-- The loop of `send_packets`. -/
def sendLoop [Inhabited ε] (send : (call n : Nat) → IoResult × Fin (n + 1)) :
    Nat → Nat → Bool → Arrays ε → Nat → Nat → List (Packet ε) → Option (SendResult ε)
  | 0, _, _, _, _, _, _ => none
  | fuel + 1, call, retried, a, n, tooBig, wire =>
    let (ret, sent) := send call n
    let wire := wire ++ (a.read n).take sent
    let a := if 0 < sent.val ∧ sent.val < n then a.shiftUnsent sent n else a
    let n := n - sent
    if n = 0 then some ⟨.ok, a, 0, tooBig, wire⟩
    else match ret with
      | .blocked => some ⟨.blocked, a, n, tooBig, wire⟩
      | .tooBig =>
        let size := a.size.getD 0 0
        let tooBig := if tooBig = 0 then size else min tooBig size
        let (n, a) := a.dropPacketsFrom n size
        if n = 0 then some ⟨.ok, a, 0, tooBig, wire⟩
        else sendLoop send fuel (call + 1) false a n tooBig wire
      | .noBuffers => some ⟨.ok, a, 0, tooBig, wire⟩
      | .unreachable => some ⟨.unreachable, a, 0, tooBig, wire⟩
      | .failure code => some ⟨.failure code, a, 0, tooBig, wire⟩
      | .ok =>
        if retried then some ⟨.blocked, a, n, tooBig, wire⟩
        else sendLoop send fuel (call + 1) true a n tooBig wire

/-- Each round of the loop drops a packet or uses up the one retry, so twice as many rounds
as there are packets, and one more, are enough. -/
def sendPackets [Inhabited ε] (transport : Transport) (a : Arrays ε) (n : Nat) :
    Option (SendResult ε) :=
  match transport with
  | .manualRouting throws =>
    let (wire, done) := routeLoop throws 0 (a.read n)
    some (if done then ⟨.ok, a, 0, 0, wire⟩ else ⟨.failure errIo, a, n, 0, wire⟩)
  | .closed => some ⟨.failure errBadf, a, n, 0, []⟩
  | .socket send => sendLoop send (2 * n + 2) 0 false a n 0 []

/-! ## The arrays -/

namespace Arrays

/-- The arrays start with these packets. -/
structure Holds (a : Arrays ε) (pkts : List (Packet ε)) : Prop where
  buf : At a.buf 0 (pkts.flatMap Packet.data)
  size : At a.size 0 (pkts.map Packet.size)
  ecn : At a.ecn 0 (pkts.map Packet.ecn)

@[simp] theorem holds_nil (a : Arrays ε) : a.Holds [] := ⟨by simp, by simp, by simp⟩

theorem readFrom_eq [Inhabited ε] {a : Arrays ε} {pkts : List (Packet ε)} {i pos : Nat}
    (hb : At a.buf pos (pkts.flatMap Packet.data)) (hs : At a.size i (pkts.map Packet.size))
    (he : At a.ecn i (pkts.map Packet.ecn)) : a.readFrom pkts.length i pos = pkts := by
  induction pkts generalizing i pos with
  | nil => rfl
  | cons p pkts ih =>
    rw [List.flatMap_cons, at_append] at hb
    have hdata : (a.buf.drop pos).take p.size = p.data := hb.1.read
    rw [List.length_cons, readFrom]
    simp only [hs.getD, he.getD, hdata]
    exact congrArg (p :: ·) (ih hb.2 (at_cons.mp hs).2 (at_cons.mp he).2)

theorem Holds.read [Inhabited ε] {a : Arrays ε} {pkts : List (Packet ε)} (h : a.Holds pkts) :
    a.read pkts.length = pkts := readFrom_eq h.buf h.size h.ecn

theorem length_flatMap (pkts : List (Packet ε)) :
    (pkts.flatMap Packet.data).length = (pkts.map Packet.size).sum := by
  rw [List.length_flatMap]
  rfl

/-- Moving what comes after some packets to the front. -/
theorem at_move_front {α : Type*} {mem xs ys : List α} (h : At mem 0 (xs ++ ys)) :
    At (move mem 0 xs.length ys.length) 0 ys := by
  rw [at_append, Nat.zero_add] at h
  rw [h.2.move_eq]
  by_cases hy : ys = []
  · simp [hy]
  · have hle := h.2.le hy
    exact at_write (by omega)

theorem shiftUnsent_holds {a : Arrays ε} {sent rest : List (Packet ε)}
    (h : a.Holds (sent ++ rest)) :
    (a.shiftUnsent sent.length (sent ++ rest).length).Holds rest := by
  have hsize := h.size
  rw [List.map_append, at_append, Nat.zero_add, List.length_map] at hsize
  have hoffset : (a.size.take sent.length).sum = (sent.flatMap Packet.data).length := by
    have hread := hsize.1.read
    rw [List.drop_zero, List.length_map] at hread
    rw [hread, length_flatMap]
  have hlen : ((a.size.drop sent.length).take rest.length).sum =
      (rest.flatMap Packet.data).length := by
    have hread := hsize.2.read
    rw [List.length_map] at hread
    rw [hread, length_flatMap]
  have hcount : (sent ++ rest).length - sent.length = rest.length := by simp
  refine ⟨?_, ?_, ?_⟩
  · have hbuf := h.buf
    rw [List.flatMap_append] at hbuf
    simpa only [shiftUnsent, hcount, hoffset, hlen] using at_move_front hbuf
  · have hmove := at_move_front (List.map_append ▸ h.size)
    rw [List.length_map, List.length_map] at hmove
    simpa only [shiftUnsent, hcount] using hmove
  · have hmove := at_move_front (List.map_append ▸ h.ecn)
    rw [List.length_map, List.length_map] at hmove
    simpa only [shiftUnsent, hcount] using hmove

/-- The loop of `drop_packets_from`, when the packets in `kept` are at the front already and
those in `rest` are still to be looked at. -/
theorem dropLoop_spec [Inhabited ε] {minSize : Nat} {a : Arrays ε} {kept rest : List (Packet ε)}
    {i inPos outPos : Nat} (hkept : a.Holds kept) (hbuf : At a.buf inPos (rest.flatMap Packet.data))
    (hsize : At a.size i (rest.map Packet.size)) (hecn : At a.ecn i (rest.map Packet.ecn))
    (hi : kept.length ≤ i) (hout : outPos = (kept.flatMap Packet.data).length)
    (hin : outPos ≤ inPos) (hne : ∀ p ∈ rest, p.data ≠ []) :
    (dropLoop minSize rest.length i kept.length inPos outPos a).1 =
        (kept ++ rest.filter (·.size < minSize)).length ∧
      (dropLoop minSize rest.length i kept.length inPos outPos a).2.Holds
        (kept ++ rest.filter (·.size < minSize)) := by
  induction rest generalizing a kept i inPos outPos with
  | nil => simpa [dropLoop] using hkept
  | cons p rest ih =>
    have hrest : ∀ q ∈ rest, q.data ≠ [] := fun q hq => hne q (by simp [hq])
    rw [List.flatMap_cons, at_append] at hbuf
    have hfit := hbuf.1.le (hne p (by simp))
    obtain ⟨hs, hsize'⟩ := at_cons.mp hsize
    obtain ⟨he, hecn'⟩ := at_cons.mp hecn
    have hislt := (List.getElem?_eq_some_iff.mp hs).1
    have hielt := (List.getElem?_eq_some_iff.mp he).1
    rw [List.length_cons, dropLoop]
    simp only [hsize.getD, hecn.getD]
    by_cases hsmall : p.size < minSize
    · rw [if_pos hsmall, List.filter_cons_of_pos (by simpa using hsmall), List.append_cons]
      have hmoved : (if outPos = inPos then a.buf else move a.buf outPos inPos p.size) =
          write a.buf outPos p.data := by
        split_ifs with heq
        · rw [heq, hbuf.1.write_same hfit]
        · exact hbuf.1.move_eq
      have hlen : (kept ++ [p]).length = kept.length + 1 := by simp
      have hsz : p.size = p.data.length := rfl
      rw [hmoved, ← hlen]
      refine ih ⟨?_, ?_, ?_⟩ (hbuf.2.write_before (by omega) (by omega))
        (hsize'.write_before ?_ ?_) (hecn'.write_before ?_ ?_) (by omega) ?_ (by omega) hrest
      · rw [List.flatMap_append, List.flatMap_singleton]
        exact hkept.buf.extend hout.symm (by omega)
      · rw [List.map_append]
        exact hkept.size.extend (by simp) (by rw [List.length_singleton]; omega)
      · rw [List.map_append]
        exact hkept.ecn.extend (by simp) (by rw [List.length_singleton]; omega)
      all_goals simp only [List.length_singleton, List.flatMap_append, List.length_append,
        List.flatMap_singleton]
      all_goals omega
    · rw [if_neg hsmall, List.filter_cons_of_neg (by simpa using hsmall)]
      exact ih hkept hbuf.2 hsize' hecn' (by omega) hout (by rw [Packet.size]; omega) hrest

theorem dropPacketsFrom_spec [Inhabited ε] {a : Arrays ε} {pkts : List (Packet ε)}
    (h : a.Holds pkts) (hne : ∀ p ∈ pkts, p.data ≠ []) (minSize : Nat) :
    (a.dropPacketsFrom pkts.length minSize).1 = (pkts.filter (·.size < minSize)).length ∧
      (a.dropPacketsFrom pkts.length minSize).2.Holds (pkts.filter (·.size < minSize)) := by
  exact dropLoop_spec (holds_nil a) h.buf h.size h.ecn le_rfl rfl le_rfl hne

/-- The arrays have the same sizes. -/
structure SameSize (a b : Arrays ε) : Prop where
  buf : a.buf.length = b.buf.length
  size : a.size.length = b.size.length
  ecn : a.ecn.length = b.ecn.length

theorem SameSize.trans {a b c : Arrays ε} (hab : a.SameSize b) (hbc : b.SameSize c) :
    a.SameSize c :=
  ⟨hab.buf.trans hbc.buf, hab.size.trans hbc.size, hab.ecn.trans hbc.ecn⟩

theorem shiftUnsent_sameSize (a : Arrays ε) (sent n : Nat) : (a.shiftUnsent sent n).SameSize a :=
  ⟨length_move (Nat.zero_le _), length_move (Nat.zero_le _), length_move (Nat.zero_le _)⟩

theorem dropLoop_le [Inhabited ε] (minSize todo i kept inPos outPos : Nat) (a : Arrays ε) :
    (dropLoop minSize todo i kept inPos outPos a).1 ≤ kept + todo := by
  induction todo generalizing i kept inPos outPos a with
  | zero => exact le_rfl
  | succ todo ih =>
    rw [dropLoop]
    by_cases hsmall : a.size.getD i 0 < minSize
    · rw [if_pos hsmall]
      exact (ih _ _ _ _ _).trans (by omega)
    · rw [if_neg hsmall]
      exact (ih _ _ _ _ _).trans (by omega)

theorem dropLoop_sameSize [Inhabited ε] {minSize todo i kept inPos outPos : Nat} {a : Arrays ε}
    (hs : i + todo ≤ a.size.length) (he : i + todo ≤ a.ecn.length) (hi : kept ≤ i)
    (hin : outPos ≤ inPos) : (dropLoop minSize todo i kept inPos outPos a).2.SameSize a := by
  induction todo generalizing i kept inPos outPos a with
  | zero => exact ⟨rfl, rfl, rfl⟩
  | succ todo ih =>
    have hone {α : Type} {mem : List α} (x : α) (h : i + (todo + 1) ≤ mem.length) :
        (write mem kept [x]).length = mem.length :=
      length_write (by rw [List.length_singleton]; omega)
    have hmoved : (if outPos = inPos then a.buf
        else move a.buf outPos inPos (a.size.getD i 0)).length = a.buf.length := by
      split_ifs
      · rfl
      · exact length_move hin
    rw [dropLoop]
    by_cases hsmall : a.size.getD i 0 < minSize
    · simp only [if_pos hsmall]
      refine (ih ?_ ?_ (by omega) (by omega)).trans ⟨hmoved, hone _ hs, hone _ he⟩
      · simp only [hone _ hs]
        omega
      · simp only [hone _ he]
        omega
    · simp only [if_neg hsmall]
      exact ih (by omega) (by omega) (by omega) (by omega)

theorem dropPacketsFrom_le [Inhabited ε] (a : Arrays ε) (n minSize : Nat) :
    (a.dropPacketsFrom n minSize).1 ≤ n :=
  (dropLoop_le ..).trans_eq (Nat.zero_add n)

theorem dropPacketsFrom_sameSize [Inhabited ε] (a : Arrays ε) {n : Nat} (minSize : Nat)
    (hs : n ≤ a.size.length) (he : n ≤ a.ecn.length) :
    (a.dropPacketsFrom n minSize).2.SameSize a :=
  dropLoop_sameSize (by omega) (by omega) le_rfl le_rfl

end Arrays

/-! ## What becomes of each packet -/

/-- What becomes of a packet: it is sent, dropped as too big, dropped for another reason, or
kept for later. -/
inductive Fate where
  | sent | tooBig | lost | kept
  deriving DecidableEq, Repr

/-- The packets with that fate, in order. -/
def withFate (f : Fate) (fates : List (Packet ε × Fate)) : List (Packet ε) :=
  (fates.filter (·.2 = f)).map Prod.fst

/-- Give all packets one fate. -/
def allFate (f : Fate) (pkts : List (Packet ε)) : List (Packet ε × Fate) := pkts.map (·, f)

theorem withFate_cons (f g : Fate) (p : Packet ε) (fates : List (Packet ε × Fate)) :
    withFate f ((p, g) :: fates) = (if g = f then [p] else []) ++ withFate f fates := by
  unfold withFate
  by_cases hg : g = f <;> simp [hg]

@[simp] theorem withFate_append (f : Fate) (xs ys : List (Packet ε × Fate)) :
    withFate f (xs ++ ys) = withFate f xs ++ withFate f ys := by simp [withFate]

@[simp] theorem withFate_allFate (f g : Fate) (pkts : List (Packet ε)) :
    withFate f (allFate g pkts) = if f = g then pkts else [] := by
  by_cases h : g = f
  · simp [withFate, allFate, h, List.filter_map, Function.comp_def]
  · simp [withFate, allFate, h, Ne.symm h, List.filter_map, Function.comp_def]

@[simp] theorem map_fst_allFate (f : Fate) (pkts : List (Packet ε)) :
    (allFate f pkts).map Prod.fst = pkts := by simp [allFate, Function.comp_def]

theorem withFate_subset (f : Fate) (fates : List (Packet ε × Fate)) :
    withFate f fates ⊆ fates.map Prod.fst :=
  List.map_subset _ (List.filter_subset_self _)

theorem length_withFate_le (f : Fate) (fates : List (Packet ε × Fate)) :
    (withFate f fates).length ≤ (fates.map Prod.fst).length := by
  rw [withFate, List.length_map, List.length_map]
  exact List.length_filter_le ..

/-- Packets of at least `minSize` bytes are dropped as too big; the others have these fates. -/
def refill (minSize : Nat) : List (Packet ε) → List (Packet ε × Fate) → List (Packet ε × Fate)
  | [], _ => []
  | p :: pkts, fates =>
    if p.size < minSize then fates.take 1 ++ refill minSize pkts (fates.drop 1)
    else (p, .tooBig) :: refill minSize pkts fates

/-- What a socket's answers, from its `call`-th on, make of each packet: those it took are sent.
If it finds the first of the others too big then that one is dropped, with all that are as big, and
the rest is sent again. It is sent again, once, if the answer gives no reason for sending less. -/
def socketFates (send : (call n : Nat) → IoResult × Fin (n + 1)) :
    Nat → Nat → Bool → List (Packet ε) → List (Packet ε × Fate)
  | 0, _, _, _ => []
  | fuel + 1, call, retried, pkts =>
    let (ret, sent) := send call pkts.length
    allFate .sent (pkts.take sent) ++
      match pkts.drop sent with
      | [] => []
      | p :: rest =>
        match ret with
        | .blocked => allFate .kept (p :: rest)
        | .tooBig => refill p.size (p :: rest)
            (socketFates send fuel (call + 1) false ((p :: rest).filter (·.size < p.size)))
        | .ok =>
          if retried then allFate .kept (p :: rest)
          else socketFates send fuel (call + 1) true (p :: rest)
        | .noBuffers | .unreachable | .failure _ => allFate .lost (p :: rest)

/-- What a transport makes of each packet. A router takes them until it throws. -/
def Transport.fates (pkts : List (Packet ε)) : Transport → List (Packet ε × Fate)
  | .manualRouting throws =>
    let taken := ((List.range pkts.length).takeWhile (! throws ·)).length
    allFate .sent (pkts.take taken) ++ allFate .lost (pkts.drop taken)
  | .closed => allFate .lost pkts
  | .socket send => socketFates send (2 * pkts.length + 2) 0 false pkts

/-- `t` is the least of `t₀`, if that is not zero, and the sizes of the packets dropped as
too big; it is zero if there are none. -/
structure LeastDropped (t₀ : Nat) (fates : List (Packet ε × Fate)) (t : Nat) : Prop where
  start : t₀ ≠ 0 → t ≠ 0 ∧ t ≤ t₀
  least : ∀ p ∈ withFate .tooBig fates, t ≠ 0 ∧ t ≤ p.size
  attained : t ≠ t₀ → ∃ p ∈ withFate .tooBig fates, p.size = t

theorem LeastDropped.none {t : Nat} {fates : List (Packet ε × Fate)}
    (h : withFate .tooBig fates = []) : LeastDropped t fates t :=
  ⟨fun h => ⟨h, le_rfl⟩, by simp [h], fun h => absurd rfl h⟩

/-- The outcome accounts for every packet: each has one fate, the transport got those sent,
in order, and the arrays start with those kept. Packets are kept exactly if sending is
blocked, and `too_big` is the least size dropped as too big. -/
structure Accounts (t₀ : Nat) (before : List (Packet ε)) (pkts : List (Packet ε))
    (fates : List (Packet ε × Fate)) (r : SendResult ε) : Prop where
  each : fates.map Prod.fst = pkts
  wire : r.wire = before ++ withFate .sent fates
  left : r.nPkts = (withFate .kept fates).length
  holds : r.arrays.Holds (withFate .kept fates)
  blocked : r.result = .blocked ↔ withFate .kept fates ≠ []
  tooBig : LeastDropped t₀ fates r.tooBig

theorem refill_spec (minSize : Nat) {pkts : List (Packet ε)} {fates : List (Packet ε × Fate)}
    (h : fates.map Prod.fst = pkts.filter (·.size < minSize)) :
    (refill minSize pkts fates).map Prod.fst = pkts ∧
      (∀ f, f ≠ .tooBig → withFate f (refill minSize pkts fates) = withFate f fates) ∧
      ∀ p, p ∈ withFate .tooBig (refill minSize pkts fates) ↔
        (p ∈ pkts ∧ minSize ≤ p.size) ∨ p ∈ withFate .tooBig fates := by
  induction pkts generalizing fates with
  | nil =>
    obtain rfl : fates = [] := by simpa using h
    exact ⟨rfl, fun _ _ => rfl, by simp [refill, withFate]⟩
  | cons p pkts ih =>
    by_cases hsmall : p.size < minSize
    · rw [List.filter_cons_of_pos (by simpa using hsmall)] at h
      obtain ⟨⟨q, f⟩, fates, rfl, rfl, hrest⟩ := List.map_eq_cons_iff.mp h
      obtain ⟨hall, hother, hbig⟩ := ih hrest
      have heq : refill minSize (q :: pkts) ((q, f) :: fates) =
          (q, f) :: refill minSize pkts fates := by rw [refill, if_pos hsmall]; rfl
      rw [heq]
      refine ⟨by simp [hall], ?_, ?_⟩
      · intro g hg
        rw [withFate_cons, withFate_cons, hother g hg]
      · intro x
        rw [withFate_cons, withFate_cons, List.mem_append, List.mem_append, hbig x]
        grind
    · rw [List.filter_cons_of_neg (by simpa using hsmall)] at h
      obtain ⟨hall, hother, hbig⟩ := ih h
      rw [refill, if_neg hsmall]
      refine ⟨by simp [hall], ?_, ?_⟩
      · intro g hg
        rw [withFate_cons, if_neg hg.symm, List.nil_append, hother g hg]
      · intro x
        rw [withFate_cons, if_pos rfl, List.mem_append, hbig x]
        grind

section Accounts

variable {t₀ : Nat} {before pkts rest : List (Packet ε)} {fates : List (Packet ε × Fate)}
  {r : SendResult ε}

/-- A round that sends some packets and leaves the others to what follows. -/
theorem Accounts.sent {now : List (Packet ε)} (h : Accounts t₀ (before ++ now) rest fates r) :
    Accounts t₀ before (now ++ rest) (allFate .sent now ++ fates) r := by
  refine ⟨by simp [h.each], by simp [h.wire], by simp [h.left], by simpa using h.holds,
    by simpa using h.blocked, ?_⟩
  have hbig : withFate .tooBig (allFate .sent now ++ fates) = withFate .tooBig fates := by simp
  exact ⟨h.tooBig.start, hbig ▸ h.tooBig.least, hbig ▸ h.tooBig.attained⟩

/-- The end of sending, with all packets dropped. -/
theorem accounts_lost (t₀ : Nat) (before : List (Packet ε)) (a : Arrays ε) (ret : IoResult)
    (hret : ret ≠ .blocked) (pkts : List (Packet ε)) :
    Accounts t₀ before pkts (allFate .lost pkts) ⟨ret, a, 0, t₀, before⟩ :=
  ⟨by simp, by simp, by simp, by simp, by simpa using hret, .none (by simp)⟩

/-- The end of sending, with all packets kept. -/
theorem accounts_kept {a : Arrays ε} (h : a.Holds pkts) (hne : pkts ≠ []) :
    Accounts t₀ before pkts (allFate .kept pkts) ⟨.blocked, a, pkts.length, t₀, before⟩ :=
  ⟨by simp, by simp, by simp, by simpa using h, by simpa using hne, .none (by simp)⟩

/-- A round that drops the first packet and all that are at least as big. -/
theorem Accounts.dropBig {p : Packet ε} (hp : p.data ≠ [])
    (h : Accounts (if t₀ = 0 then p.size else min t₀ p.size) before
      ((p :: rest).filter (·.size < p.size)) fates r) :
    Accounts t₀ before (p :: rest) (refill p.size (p :: rest) fates) r := by
  obtain ⟨hall, hother, hbig⟩ := refill_spec p.size h.each
  have hpos : 0 < p.size := List.length_pos_iff.mpr hp
  have hmem : p ∈ withFate .tooBig (refill p.size (p :: rest) fates) :=
    (hbig p).mpr (.inl ⟨by simp, le_rfl⟩)
  have hkept := hother .kept (by simp)
  refine ⟨hall, by rw [h.wire, hother .sent (by simp)], by rw [h.left, hkept],
    hkept ▸ h.holds, by rw [hkept]; exact h.blocked, ?_, ?_, ?_⟩
  · intro h0
    have hstart := h.tooBig.start (by rw [if_neg h0]; omega)
    rw [if_neg h0] at hstart
    omega
  · intro q hq
    rcases (hbig q).mp hq with ⟨-, hle⟩ | hq
    · have hstart := h.tooBig.start (by split_ifs <;> omega)
      split_ifs at hstart <;> omega
    · exact h.tooBig.least q hq
  · intro hne
    by_cases heq : r.tooBig = if t₀ = 0 then p.size else min t₀ p.size
    · refine ⟨p, hmem, ?_⟩
      split_ifs at heq <;> omega
    · obtain ⟨q, hq, hsize⟩ := h.tooBig.attained heq
      exact ⟨q, (hbig q).mpr (.inr hq), hsize⟩

end Accounts

/-- After a send of the first `k` packets the arrays start with the others. -/
theorem Arrays.Holds.afterSend {a : Arrays ε} {pkts : List (Packet ε)} (h : a.Holds pkts) {k : Nat}
    (hk : k ≤ pkts.length) :
    (if 0 < k ∧ k < pkts.length then a.shiftUnsent k pkts.length else a).Holds (pkts.drop k) := by
  split_ifs with hc
  · have hsplit : pkts.take k ++ pkts.drop k = pkts := List.take_append_drop k pkts
    have hshift := Arrays.shiftUnsent_holds (hsplit.symm ▸ h)
    rwa [hsplit, List.length_take_of_le hk] at hshift
  · obtain rfl | rfl : k = 0 ∨ k = pkts.length := by omega
    · exact h
    · rw [List.drop_length]
      exact Arrays.holds_nil a

theorem socketFates_nil (send : (call n : Nat) → IoResult × Fin (n + 1)) (fuel call : Nat)
    (retried : Bool) : socketFates send fuel call retried ([] : List (Packet ε)) = [] := by
  cases fuel <;> simp [socketFates, allFate]

/-- The loop returns, and each packet has the fate that the socket's answers give it. -/
theorem sendLoop_accounts [Inhabited ε] (send : (call n : Nat) → IoResult × Fin (n + 1))
    {fuel : Nat} (call : Nat) (retried : Bool) (tooBig : Nat) (wire : List (Packet ε)) {a : Arrays ε}
    {pkts : List (Packet ε)} (hold : a.Holds pkts) (hne : ∀ p ∈ pkts, p.data ≠ [])
    (hfuel : 2 * pkts.length + (if retried then 0 else 1) < fuel) :
    ∃ r, sendLoop send fuel call retried a pkts.length tooBig wire = some r ∧
      Accounts tooBig wire pkts (socketFates send fuel call retried pkts) r := by
  induction fuel generalizing call retried a pkts tooBig wire with
  | zero => omega
  | succ fuel ih =>
    have hk : (send call pkts.length).2.val ≤ pkts.length := Nat.le_of_lt_succ (send call _).2.2
    have hold' := hold.afterSend hk
    have hne' : ∀ p ∈ pkts.drop (send call pkts.length).2, p.data ≠ [] :=
      fun p hp => hne p (List.mem_of_mem_drop hp)
    have hlen : pkts.length - (send call pkts.length).2 =
        (pkts.drop (send call pkts.length).2).length := List.length_drop.symm
    have hle : (pkts.drop (send call pkts.length).2).length ≤ pkts.length := by
      rw [List.length_drop]
      omega
    have hsplit :
        pkts.take (send call pkts.length).2 ++ pkts.drop (send call pkts.length).2 = pkts :=
      List.take_append_drop _ pkts
    unfold sendLoop socketFates
    simp only [hold.read, hlen]
    generalize (send call pkts.length).1 = ret at *
    generalize (send call pkts.length).2.val = k at *
    generalize (if 0 < k ∧ k < pkts.length then a.shiftUnsent k pkts.length else a) = a' at *
    -- Whatever becomes of the packets after this send, those it sent come first.
    have hsent {rest fates r} (hrest : rest = pkts.drop k)
        (h : Accounts tooBig (wire ++ pkts.take k) rest fates r) :
        Accounts tooBig wire pkts (allFate .sent (pkts.take k) ++ fates) r := by
      have hacc := h.sent
      rwa [hrest, hsplit] at hacc
    generalize hrest : pkts.drop k = rest at *
    generalize wire ++ pkts.take k = wire' at *
    cases rest with
    | nil => exact ⟨_, if_pos rfl, hsent rfl (accounts_lost _ _ _ _ (by simp) _)⟩
    | cons p rest =>
      rw [if_neg (by simp)]
      cases ret with
      | ok =>
        cases retried with
        | true => exact ⟨_, if_pos rfl, hsent rfl (accounts_kept hold' (by simp))⟩
        | false =>
          simp only [Bool.false_eq_true, if_false] at hfuel ⊢
          obtain ⟨r, hok, hacc⟩ := ih (call + 1) true tooBig wire' hold' hne'
            (by rw [if_pos rfl]; omega)
          exact ⟨r, hok, hsent rfl hacc⟩
      | blocked => exact ⟨_, rfl, hsent rfl (accounts_kept hold' (by simp))⟩
      | tooBig =>
        obtain ⟨hcount, hfilter⟩ := Arrays.dropPacketsFrom_spec hold' hne' p.size
        have hsmaller : ((p :: rest).filter (·.size < p.size)).length < (p :: rest).length := by
          rw [List.filter_cons_of_neg (by simp), List.length_cons]
          exact Nat.lt_succ_of_le (List.length_filter_le ..)
        simp only [hold'.size.getD, hcount]
        generalize (a'.dropPacketsFrom (p :: rest).length p.size).2 = b at *
        by_cases h0 : ((p :: rest).filter (·.size < p.size)).length = 0
        · rw [if_pos h0]
          have hnone := List.length_eq_zero_iff.mp h0
          have hlast := accounts_lost (if tooBig = 0 then p.size else min tooBig p.size) wire' b
            .ok (by simp) []
          refine ⟨_, rfl, hsent rfl (Accounts.dropBig (hne' p (by simp)) ?_)⟩
          rw [hnone, socketFates_nil]
          exact hlast
        · rw [if_neg h0]
          obtain ⟨r, hok, hacc⟩ := ih (call + 1) false
            (if tooBig = 0 then p.size else min tooBig p.size) wire' hfilter
            (fun q hq => hne' q (List.mem_of_mem_filter hq))
            (by simp only [Bool.false_eq_true, if_false]; omega)
          exact ⟨r, hok, hsent rfl (hacc.dropBig (hne' p (by simp)))⟩
      | noBuffers => exact ⟨_, rfl, hsent rfl (accounts_lost _ _ _ _ (by simp) _)⟩
      | unreachable => exact ⟨_, rfl, hsent rfl (accounts_lost _ _ _ _ (by simp) _)⟩
      | failure code => exact ⟨_, rfl, hsent rfl (accounts_lost _ _ _ _ (by simp) _)⟩

theorem sendLoop_sameSize [Inhabited ε] {send : (call n : Nat) → IoResult × Fin (n + 1)}
    {fuel call n tooBig : Nat} {retried : Bool} {wire : List (Packet ε)} {a : Arrays ε}
    {r : SendResult ε} (h : sendLoop send fuel call retried a n tooBig wire = some r)
    (hs : n ≤ a.size.length) (he : n ≤ a.ecn.length) : r.arrays.SameSize a := by
  induction fuel generalizing call retried a n tooBig wire with
  | zero => simp [sendLoop] at h
  | succ fuel ih =>
    have hshift (sent : Nat) :
        (if 0 < sent ∧ sent < n then a.shiftUnsent sent n else a).SameSize a := by
      split_ifs
      · exact a.shiftUnsent_sameSize sent n
      · exact ⟨rfl, rfl, rfl⟩
    replace hshift := hshift (send call n).2
    unfold sendLoop at h
    dsimp only at h
    generalize (send call n).1 = ret at h
    generalize (send call n).2.val = sent at h hshift
    generalize (if 0 < sent ∧ sent < n then a.shiftUnsent sent n else a) = b at h hshift
    have hbs := hshift.size
    have hbe := hshift.ecn
    refine Arrays.SameSize.trans ?_ hshift
    by_cases h0 : n - sent = 0
    · rw [if_pos h0, Option.some.injEq] at h
      exact h ▸ ⟨rfl, rfl, rfl⟩
    · rw [if_neg h0] at h
      cases ret with
      | tooBig =>
        have hle := b.dropPacketsFrom_le (n - sent) (b.size.getD 0 0)
        have hsz := b.dropPacketsFrom_sameSize (n := n - sent) (b.size.getD 0 0)
          (by omega) (by omega)
        have hsize := hsz.size
        have hecn := hsz.ecn
        dsimp only at h
        generalize b.dropPacketsFrom (n - sent) (b.size.getD 0 0) = dropped at *
        by_cases hnone : dropped.1 = 0
        · rw [if_pos hnone, Option.some.injEq] at h
          exact h ▸ hsz
        · rw [if_neg hnone] at h
          exact (ih h (by omega) (by omega)).trans hsz
      | ok =>
        cases retried with
        | true => exact Option.some.inj h ▸ ⟨rfl, rfl, rfl⟩
        | false => exact ih h (by omega) (by omega)
      | _ => exact Option.some.inj h ▸ ⟨rfl, rfl, rfl⟩

/-- The first packet is as big as itself. -/
theorem Arrays.dropPacketsFrom_lt [Inhabited ε] (a : Arrays ε) {n : Nat} (h : n ≠ 0) :
    (a.dropPacketsFrom n (a.size.getD 0 0)).1 < n := by
  obtain ⟨n, rfl⟩ := Nat.exists_eq_succ_of_ne_zero h
  rw [dropPacketsFrom, dropLoop]
  rw [if_neg (lt_irrefl _)]
  exact Nat.lt_succ_of_le ((Arrays.dropLoop_le _ _ _ _ _ _ _).trans (by omega))

/-- The loop returns, whatever the arrays hold. -/
theorem sendLoop_isSome [Inhabited ε] (send : (call n : Nat) → IoResult × Fin (n + 1))
    {fuel : Nat} (call : Nat) (retried : Bool) (a : Arrays ε) {n : Nat} (tooBig : Nat)
    (wire : List (Packet ε)) (hfuel : 2 * n + (if retried then 0 else 1) < fuel) :
    (sendLoop send fuel call retried a n tooBig wire).isSome := by
  induction fuel generalizing call retried a n tooBig wire with
  | zero => omega
  | succ fuel ih =>
    unfold sendLoop
    dsimp only
    generalize (send call n).1 = ret
    generalize (send call n).2.val = sent
    generalize (if 0 < sent ∧ sent < n then a.shiftUnsent sent n else a) = b
    by_cases h0 : n - sent = 0
    · rw [if_pos h0]
      rfl
    rw [if_neg h0]
    cases ret with
    | tooBig =>
      have hlt := b.dropPacketsFrom_lt h0
      dsimp only
      generalize b.dropPacketsFrom (n - sent) (b.size.getD 0 0) = dropped at hlt
      by_cases hnone : dropped.1 = 0
      · rw [if_pos hnone]
        rfl
      · rw [if_neg hnone]
        refine ih _ _ _ _ _ ?_
        split_ifs at hfuel ⊢ <;> omega
    | ok =>
      cases retried with
      | true => rfl
      | false =>
        simp only [Bool.false_eq_true, if_false] at hfuel ⊢
        exact ih _ _ _ _ _ (by simp; omega)
    | _ => rfl

/-! ## All transports -/

/-- A transport that can take `n` packets: an open socket, however it answers, or a router
that does not throw at any of them. -/
def Transport.Delivers (n : Nat) : Transport → Prop
  | .manualRouting throws => ∀ i < n, throws i = false
  | .closed => False
  | .socket _ => True

theorem Transport.Delivers.mono {transport : Transport} {m n : Nat} (h : transport.Delivers n)
    (hmn : m ≤ n) : transport.Delivers m := by
  cases transport with
  | manualRouting throws => exact fun i hi => h i (hi.trans_le hmn)
  | closed => exact h
  | socket send => exact h

theorem routeLoop_delivers {throws : Nat → Bool} {pkts : List (Packet ε)} {i : Nat}
    (h : ∀ j < pkts.length, throws (i + j) = false) : routeLoop throws i pkts = (pkts, true) := by
  induction pkts generalizing i with
  | nil => rfl
  | cons p pkts ih =>
    have hrest : ∀ j < pkts.length, throws (i + 1 + j) = false := fun j hj => by
      have := h (j + 1) (by simpa using hj)
      rwa [show i + 1 + j = i + (j + 1) by omega]
    have hnow : throws i = false := h 0 (by simp)
    simp [routeLoop, hnow, ih hrest]

theorem routeLoop_throws {throws : Nat → Bool} {pkts : List (Packet ε)} {i : Nat}
    (h : ∃ j < pkts.length, throws (i + j) = true) : (routeLoop throws i pkts).2 = false := by
  induction pkts generalizing i with
  | nil => simp at h
  | cons p pkts ih =>
    obtain ⟨j, hj, hthrow⟩ := h
    rw [routeLoop]
    split_ifs with hnow
    · rfl
    · cases j with
      | zero => exact absurd hthrow hnow
      | succ j =>
        refine ih ⟨j, by simpa using hj, ?_⟩
        rwa [show i + 1 + j = i + (j + 1) by omega]

section Transports

variable [Inhabited ε] {a : Arrays ε} {pkts : List (Packet ε)} {transport : Transport}

/-- A transport that delivers leaves packets behind only if it is blocked. -/
theorem sendPackets_accounts (hold : a.Holds pkts) (hne : ∀ p ∈ pkts, p.data ≠ [])
    (h : transport.Delivers pkts.length) :
    ∃ r, sendPackets transport a pkts.length = some r ∧
      Accounts 0 [] pkts (transport.fates pkts) r := by
  cases transport with
  | manualRouting throws =>
    have hall : routeLoop throws 0 pkts = (pkts, true) :=
      routeLoop_delivers fun j hj => by simpa using h j hj
    have htaken : (List.range pkts.length).takeWhile (! throws ·) = List.range pkts.length := by
      refine List.takeWhile_eq_self_iff.mpr fun j hj => ?_
      simpa using h j (List.mem_range.mp hj)
    refine ⟨⟨.ok, a, 0, 0, pkts⟩, by simp [sendPackets, hold.read, hall], ?_⟩
    have hfates : Transport.fates pkts (.manualRouting throws) = allFate .sent pkts := by
      simp [Transport.fates, htaken, allFate]
    rw [hfates]
    exact ⟨by simp, by simp, by simp, by simp, by simp, .none (by simp)⟩
  | closed => exact h.elim
  | socket send =>
    exact sendLoop_accounts send 0 false 0 [] hold hne
      (by simp only [Bool.false_eq_true, if_false]; omega)

/-- Any other transport leaves all packets in the batch, though it is not blocked. -/
theorem sendPackets_stuck (hold : a.Holds pkts) (h : ¬ transport.Delivers pkts.length) :
    ∃ r, sendPackets transport a pkts.length = some r ∧ r.result ≠ .blocked ∧
      r.nPkts = pkts.length := by
  cases transport with
  | manualRouting throws =>
    have hsome : ∃ j < pkts.length, throws (0 + j) = true := by
      simpa [Transport.Delivers] using h
    exact ⟨_, rfl, by simp [hold.read, routeLoop_throws hsome]⟩
  | closed => exact ⟨_, rfl, by simp, rfl⟩
  | socket send => exact absurd trivial h

/-- Sending comes to an end. -/
theorem sendPackets_isSome (transport : Transport) (a : Arrays ε) (n : Nat) :
    (sendPackets transport a n).isSome := by
  cases transport with
  | manualRouting throws => rfl
  | closed => rfl
  | socket send => exact sendLoop_isSome send 0 false a 0 [] (by simp)

/-- Sending rearranges the arrays in place. -/
theorem sendPackets_sameSize {n : Nat} {r : SendResult ε} (h : sendPackets transport a n = some r)
    (hs : n ≤ a.size.length) (he : n ≤ a.ecn.length) : r.arrays.SameSize a := by
  cases transport with
  | manualRouting throws =>
    simp only [sendPackets, Option.some.injEq] at h
    subst h
    split_ifs <;> exact ⟨rfl, rfl, rfl⟩
  | closed =>
    cases h
    exact ⟨rfl, rfl, rfl⟩
  | socket send => exact sendLoop_sameSize h hs he

end Transports

end Libquic
