import Libquic.Stream.SendSpec

/-!
# What a flush offers

The parts of `flush_packets` that decide which channels take part in a flush, and what
a stream's turn in it passes to `ngtcp2_conn_writev_stream`.
-/
namespace Libquic

/-- Where the data of a packet comes from: a stream, the datagram queue, or the pseudo
stream of id -1 that stands for no stream. -/
inductive Channel where
  | stream (id : Int)
  | datagrams
  | pseudo
  deriving DecidableEq, Repr

/-- The channels of a flush, in order. `mid` is the random position of the stream to start
from; datagrams are mixed in after the streams from there on. -/
def selectChannels (streams : List (Int × Stream)) (dgramsWaiting : Bool) (mid : Nat) :
    List Channel :=
  let unfinished (part : List (Int × Stream)) :=
    (part.filter fun entry => !entry.2.sentFin).map fun entry => Channel.stream entry.1
  unfinished (streams.drop mid) ++ (if dgramsWaiting then [.datagrams] else []) ++
    unfinished (streams.take mid) ++ [.pseudo]

/-- Whatever the start, the streams that take part are those that have not sent their FIN. -/
theorem mem_selectChannels {streams : List (Int × Stream)} {dgramsWaiting : Bool} {mid : Nat}
    {id : Int} :
    .stream id ∈ selectChannels streams dgramsWaiting mid ↔
      ∃ s, (id, s) ∈ streams ∧ s.sentFin = false := by
  have hsplit (entry : Int × Stream) :
      entry ∈ streams ↔ entry ∈ streams.drop mid ∨ entry ∈ streams.take mid := by
    rw [or_comm, ← List.mem_append, List.take_append_drop]
  have hdgrams : Channel.stream id ∉ (if dgramsWaiting then [.datagrams] else []) := by
    split <;> simp
  simp only [selectChannels, List.mem_append, hdgrams, List.mem_map, List.mem_filter, hsplit]
  grind

/-- `MAX_PMTUD_UDP_PAYLOAD` -/
def maxPmtudUdpPayload : Nat := 1472

/-- The vectors and the FIN flag passed to `ngtcp2_conn_writev_stream`. -/
structure Offer where
  bufs : List Bytes
  fin : Bool
  deriving DecidableEq, Repr

def Offer.data (o : Offer) : Bytes := o.bufs.flatten

namespace Stream

/-- A real stream's turn in a flush; `none` if it has nothing to give. -/
def offer (s : Stream) : Except Fault (Option Offer) := do
  let (bufs, more) ← s.pending maxPmtudUdpPayload
  if s.sendFin && !more then return some ⟨bufs, true⟩
  if bufs = [] then return none
  return some ⟨bufs, false⟩

/-- Note the FIN as sent if ngtcp2 took all the data it was offered with. -/
def noteFin (s : Stream) (o : Offer) (accepted : Nat) : Stream :=
  { s with sentFin := s.sentFin || (o.fin && accepted == o.data.length) }

/-- How many bytes the stream's turn in a flush offers. -/
def offeredSize (s : Stream) : Nat :=
  match s.offer with
  | .ok (some o) => o.data.length
  | _ => 0

theorem pending_of_offer {s : Stream} {o : Offer} (h : s.offer = .ok (some o)) :
    ∃ more, s.pending maxPmtudUdpPayload = .ok (o.bufs, more) := by
  obtain ⟨⟨bufs, more⟩, hok, h⟩ := Lib.bind_ok h
  refine ⟨more, ?_⟩
  simp only [Lib.pure_eq_ok] at h
  grind

theorem offer_spec {s : Stream} (hp : s.AtSendPoint) (hne : Filled s.userBuffers)
    (hu : s.unsentSize = s.unsentBytes.length) :
    (s.offer = .ok none ∧ s.unsentBytes = [] ∧ s.sendFin = false) ∨
      ∃ o, s.offer = .ok (some o) ∧ o.data <+: s.unsentBytes ∧
        (s.unsentBytes ≠ [] → o.data ≠ []) ∧
        (o.fin = true ↔ s.sendFin = true ∧ o.data = s.unsentBytes) := by
  obtain ⟨vecs, more, hok, hpre, hall, hcov⟩ := pending_spec maxPmtudUdpPayload hp hne hu
  have hdata : s.unsentBytes ≠ [] → vecs.flatten ≠ [] := by
    intro hsome hnone
    cases more with
    | false => exact hsome (hnone ▸ (hall.mp rfl).symm)
    | true =>
      have := hcov rfl
      simp [hnone, maxPmtudUdpPayload] at this
  by_cases hfin : s.sendFin = true ∧ more = false
  · refine .inr ⟨⟨vecs, true⟩, by simp [offer, hok, hfin], hpre, hdata, ?_⟩
    exact iff_of_true rfl ⟨hfin.1, hall.mp hfin.2⟩
  · have hcond : s.sendFin = true → more = true := by simpa using hfin
    by_cases hempty : vecs = []
    · have hnone : s.unsentBytes = [] := by
        by_contra hsome
        exact hdata hsome (by simp [hempty])
      have hmore : more = false := hall.mpr (by simp [hempty, hnone])
      refine .inl ⟨by simpa [offer, hok, hempty] using hcond, hnone, ?_⟩
      simpa [hmore] using hfin
    · refine .inr ⟨⟨vecs, false⟩, by simpa [offer, hok, hempty] using hcond, hpre, hdata, ?_⟩
      refine iff_of_false (by simp) ?_
      rintro ⟨hs, hsame⟩
      exact hfin ⟨hs, hall.mpr hsame⟩

end Stream

end Libquic
