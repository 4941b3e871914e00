import Libquic.Datagram.Queue
import Libquic.Lib.Machine

/-!
# What the datagram queue does

`Inv` describes the queue between two calls: datagrams that are gone in front of the early-data
head, then the head, of which either part can be gone, and behind it datagrams of which at most
the second part is. Each function is specified by what it does to such a queue.
-/
namespace Libquic

open Lib

/-- Neither the second part nor the first alone. -/
theorem SendStatus.eq_unsent {status : SendStatus} (hsecond : ¬ status.hasSecond = true)
    (hfirst : status ≠ .sentFirst) : status = .unsent := by
  cases status <;> simp_all [hasSecond]

namespace Storage

variable {β : Type} {d d' : Storage β}

/-- The number of payload bytes still to be sent. -/
def unsent (d : Storage β) : Nat :=
  match d.status with
  | .sent => 0
  | .sentFirst => d.size - d.splitPos
  | .sentSecond => d.splitPos
  | .unsent => d.size

/-- A part can only be gone if splitting is enabled, and then the split is inside the payload. -/
structure Fits (splitting : Bool) (d : Storage β) : Prop where
  splitting : d.status = .sentFirst ∨ d.status = .sentSecond → splitting = true
  splitPos : d.status = .sentFirst ∨ d.status = .sentSecond → d.splitPos ≤ d.size

/-- The same datagram. It may be split elsewhere if no part is gone. -/
structure Resplit (d d' : Storage β) : Prop where
  baseDgid : d'.baseDgid = d.baseDgid
  status : d'.status = d.status
  payload : d'.payload = d.payload
  splitPos : d.status ≠ .unsent → d'.splitPos = d.splitPos

theorem Resplit.refl (d : Storage β) : Resplit d d := ⟨rfl, rfl, rfl, fun _ => rfl⟩

theorem resplit_splitPos (h : d.status = .unsent) (pos : Nat) :
    Resplit d { d with splitPos := pos } :=
  ⟨rfl, rfl, rfl, fun hne => absurd h hne⟩

theorem Resplit.unsent_eq (h : Resplit d d') : d'.unsent = d.unsent := by
  have hsize : d'.size = d.size := congrArg List.length h.payload
  have hpos := h.splitPos
  simp only [unsent, h.status, hsize]
  cases hstatus : d.status <;> simp_all

theorem Resplit.fits {splitting : Bool} (h : Resplit d d') (hfits : d.Fits splitting) :
    d'.Fits splitting := by
  have hsize : d'.size = d.size := congrArg List.length h.payload
  refine ⟨fun hpart => hfits.splitting (h.status ▸ hpart), fun hpart => ?_⟩
  rw [h.status] at hpart
  have hpos := h.splitPos (by grind)
  have := hfits.splitPos hpart
  omega

theorem unsent_le_size {splitting : Bool} (h : d.Fits splitting) : d.unsent ≤ d.size := by
  have := h.splitPos
  unfold unsent
  cases hstatus : d.status <;> simp_all

theorem sizeSub_mod {a b : Nat} (hle : b ≤ a) : sizeSub a b % 2 ^ 16 = (a - b) % 2 ^ 16 := by
  unfold sizeSub
  omega

/-- `unsent_size` is right up to its 16 bits. -/
theorem unsentSize_eq {splitting : Bool} (h : d.Fits splitting) :
    d.unsentSize = d.unsent % 2 ^ 16 := by
  have hpos := h.splitPos
  unfold unsentSize unsent
  cases hstatus : d.status with
  | sentFirst => exact sizeSub_mod (hpos (.inl hstatus))
  | sentSecond => rfl
  | unsent => rfl
  | sent => rfl

end Storage

/-- What is sent of a datagram at once. -/
inductive Part where
  | whole
  | first
  | second
  deriving DecidableEq, Repr

namespace Part

variable {β : Type}

def status : Part → SendStatus
  | whole => .sent
  | first => .sentFirst
  | second => .sentSecond

def bits : Part → Nat
  | whole => 0
  | first => dgidSplitFirst
  | second => dgidSplitSecond

def data (d : Storage β) : Part → List β
  | whole => d.payload
  | first => d.payload.take d.splitPos
  | second => d.payload.drop d.splitPos

/-- The part is not gone yet, and neither is the rest if that leaves nothing to split. -/
def Left (d : Storage β) : Part → Prop
  | whole => d.status = .unsent
  | first => (d.status = .unsent ∨ d.status = .sentSecond) ∧ d.splitPos ≤ d.size
  | second => (d.status = .unsent ∨ d.status = .sentFirst) ∧ d.splitPos ≤ d.size

/-- The datagram with this part sent. -/
def mark (part : Part) (d : Storage β) : Storage β := { d with status := d.status.or part.status }

@[simp] theorem payload_mark (part : Part) (d : Storage β) :
    (part.mark d).payload = d.payload := rfl

@[simp] theorem splitPos_mark (part : Part) (d : Storage β) :
    (part.mark d).splitPos = d.splitPos := rfl

@[simp] theorem size_mark (part : Part) (d : Storage β) : (part.mark d).size = d.size := rfl

/-- Nothing is left after the second of two parts, or the whole. -/
theorem Left.status_mark {part : Part} {d : Storage β} (h : part.Left d) :
    (part.mark d).status = if d.status = .unsent then part.status else .sent := by
  cases part with
  | whole =>
    have hstatus : d.status = .unsent := h
    rw [mark, hstatus]
    rfl
  | first =>
    obtain ⟨hstatus | hstatus, -⟩ := h
    all_goals
      rw [mark, hstatus]
      rfl
  | second =>
    obtain ⟨hstatus | hstatus, -⟩ := h
    all_goals
      rw [mark, hstatus]
      rfl

/-- Sending a part takes its bytes off what is unsent. -/
theorem Left.unsent_mark {part : Part} {d : Storage β} (h : part.Left d) :
    (part.mark d).unsent + (part.data d).length = d.unsent := by
  rw [Storage.unsent, h.status_mark, size_mark, splitPos_mark, Storage.unsent]
  cases part with
  | whole =>
    have hstatus : d.status = .unsent := h
    simp [data, status, hstatus, Storage.size]
  | first =>
    obtain ⟨hstatus | hstatus, hle⟩ := h <;> simp_all [data, status, Storage.size]
  | second =>
    obtain ⟨hstatus | hstatus, hle⟩ := h <;> simp_all [data, status, Storage.size]

end Part

namespace DatagramQueue

variable {β : Type} {q : DatagramQueue β} {maxPiece : Nat}

/-! ## The queue between calls -/

/-- The datagrams that are not sent yet: both parts of the first are not gone, and only second
parts of those after it. -/
def Waiting : List (Storage β) → Prop
  | [] => True
  | head :: rest => head.status ≠ .sent ∧ ∀ d ∈ rest, d.status = .unsent ∨ d.status = .sentSecond

/-- The bytes that wait to be sent. -/
def total (q : DatagramQueue β) : Nat := ((q.buf.drop q.head).map Storage.unsent).sum

structure Inv (q : DatagramQueue β) : Prop where
  head_le : q.head ≤ q.buf.length
  done : ∀ d ∈ q.buf.take q.head, d.status = .sent
  waiting : Waiting (q.buf.drop q.head)
  fits : ∀ d ∈ q.buf, d.Fits q.packetSplitting

theorem Waiting.ahead {l : List (Storage β)} {d : Storage β} {k : Nat} (h : Waiting l)
    (hd : l[k]? = some d) (hk : k ≠ 0) : d.status = .unsent ∨ d.status = .sentSecond := by
  cases l with
  | nil => simp at hd
  | cons head rest =>
    obtain ⟨k, rfl⟩ := Nat.exists_eq_succ_of_ne_zero hk
    exact h.2 d (List.mem_of_getElem? hd)

theorem Waiting.ne_sent {l : List (Storage β)} {d : Storage β} (h : Waiting l) (hd : d ∈ l) :
    d.status ≠ .sent := by
  cases l with
  | nil => simp at hd
  | cons head rest =>
    rcases List.mem_cons.mp hd with rfl | hd
    · exact h.1
    · rcases h.2 d hd with hstatus | hstatus <;> simp [hstatus]

theorem Waiting.tail {l : List (Storage β)} (h : Waiting l) : Waiting l.tail := by
  cases l with
  | nil => trivial
  | cons head rest =>
    cases rest with
    | nil => trivial
    | cons next rest =>
      refine ⟨?_, fun d hd => h.2 d (by simp [hd])⟩
      rcases h.2 next (by simp) with hstatus | hstatus <;> simp [hstatus]

/-- A datagram in the queue gives way to one that is no further on, or is the head. -/
theorem Waiting.set {l : List (Storage β)} {d : Storage β} {k : Nat} (h : Waiting l)
    (hhead : k = 0 → d.status ≠ .sent)
    (hahead : k ≠ 0 → d.status = .unsent ∨ d.status = .sentSecond) : Waiting (l.set k d) := by
  cases l with
  | nil => trivial
  | cons head rest =>
    cases k with
    | zero => exact ⟨hhead rfl, h.2⟩
    | succ k =>
      refine ⟨h.1, fun e he => ?_⟩
      rcases List.mem_or_eq_of_mem_set he with he | rfl
      · exact h.2 e he
      · exact hahead (by simp)

theorem Waiting.append {l : List (Storage β)} {d : Storage β} (h : Waiting l)
    (hd : d.status = .unsent) : Waiting (l ++ [d]) := by
  cases l with
  | nil => exact ⟨by simp [hd], by simp⟩
  | cons head rest =>
    refine ⟨h.1, fun e he => ?_⟩
    rcases List.mem_append.mp he with he | he
    · exact h.2 e he
    · exact .inl (List.mem_singleton.mp he ▸ hd)

theorem getElem?_waiting (k : Nat) : (q.buf.drop q.head)[k]? = q.buf[q.head + k]? := by
  rw [List.getElem?_drop]

/-! ## Choosing a piece -/

/-- The piece that `fetch` returns, `off` behind the head, with the split position it chose. -/
structure Chosen (q : DatagramQueue β) (off : Nat) (d d' : Storage β) (part : Part) : Prop where
  get : q.buf[q.head + off]? = some d
  resplit : d.Resplit d'
  left : part.Left d'
  head : part ≠ .second → off = 0
  ahead : off ≤ q.splitLookahead
  splitting : part ≠ .whole → q.packetSplitting = true

/-- What `lookAhead` can return from a list that starts `off` behind the head. -/
inductive Found (lookahead off : Nat) (l : List (Storage β)) :
    Option (Nat × Storage β × List β) → Prop where
  | nothing : Found lookahead off l none
  | piece {k : Nat} {d d' : Storage β} : l[k]? = some d → d.Resplit d' → Part.second.Left d' →
      off + k ≤ lookahead → Found lookahead off l (some (off + k, d', Part.second.data d'))

theorem Found.cons {lookahead off : Nat} {l : List (Storage β)}
    {result : Option (Nat × Storage β × List β)} (h : Found lookahead (off + 1) l result)
    (d : Storage β) : Found lookahead off (d :: l) result := by
  cases h with
  | nothing => exact .nothing
  | @piece k e e' hget hresplit hleft hle =>
    have hoff : off + 1 + k = off + (k + 1) := by omega
    rw [hoff] at hle ⊢
    exact .piece (k := k + 1) hget hresplit hleft hle

theorem subspanFrom_ok {data : List β} {offset : Nat} (h : offset ≤ data.length) :
    subspanFrom data offset = .ok (data.drop offset) := if_pos h

theorem subspanTo_ok {data : List β} {count : Nat} (h : count ≤ data.length) :
    subspanTo data count = .ok (data.take count) := if_pos h

theorem lookAhead_spec (maxPiece lookahead off : Nat) {l : List (Storage β)}
    (hahead : ∀ k d, l[k]? = some d → off + k ≠ 0 → d.status = .unsent ∨ d.status = .sentSecond)
    (hfits : ∀ d ∈ l, d.Fits true) :
    ∃ result, lookAhead maxPiece lookahead off l = .ok result ∧ Found lookahead off l result := by
  induction l generalizing off with
  | nil => exact ⟨none, rfl, .nothing⟩
  | cons d rest ih =>
    have hnext : ∃ result, lookAhead maxPiece lookahead (off + 1) rest = .ok result ∧
        Found lookahead off (d :: rest) result := by
      obtain ⟨result, hresult, hfound⟩ := ih (off + 1)
        (fun k e he hne => hahead (k + 1) e he (by omega)) fun e he => hfits e (by simp [he])
      exact ⟨result, hresult, hfound.cons d⟩
    unfold lookAhead
    by_cases hroom : lookahead < off
    · exact ⟨none, if_pos hroom, .nothing⟩
    rw [if_neg hroom]
    by_cases hsecond : d.status.hasSecond = true
    · rwa [if_pos hsecond]
    rw [if_neg hsecond]
    have hd : off ≠ 0 → d.status = .unsent := by
      intro hoff
      rcases hahead 0 d rfl hoff with hstatus | hstatus
      · exact hstatus
      · simp [hstatus, SendStatus.hasSecond] at hsecond
    rw [if_neg (by grind)]
    by_cases hfirst : d.status = .sentFirst
    · have hpos := (hfits d (by simp)).splitPos (.inl hfirst)
      rw [if_pos hfirst, subspanFrom_ok hpos]
      exact ⟨_, rfl, .piece (k := 0) rfl (.refl d) ⟨.inr hfirst, hpos⟩ (by omega)⟩
    rw [if_neg hfirst]
    by_cases hlong : maxPiece < d.size
    · have hstatus := SendStatus.eq_unsent hsecond hfirst
      have hpos : maxPiece % 2 ^ 16 ≤ d.size := (Nat.mod_le _ _).trans hlong.le
      simp only [if_pos hlong, subspanFrom_ok hpos, ok_bind]
      exact ⟨_, rfl, .piece (k := 0) rfl (Storage.resplit_splitPos hstatus _)
        ⟨.inl hstatus, hpos⟩ (by omega)⟩
    · rwa [if_neg hlong]

/-- The part of the head that is sent, by what is gone of it. -/
def headPart (maxPiece : Nat) (splitting : Bool) (d : Storage β) : Part :=
  match d.status with
  | .sentFirst => .second
  | .sentSecond => .first
  | .unsent | .sent => if splitting = true ∧ maxPiece < d.size then .first else .whole

theorem headPiece_spec (maxPiece : Nat) {splitting : Bool} {d : Storage β} (hstatus : d.status ≠ .sent)
    (hfits : d.Fits splitting) :
    ∃ d', headPiece maxPiece splitting d = .ok (d', (headPart maxPiece splitting d).status,
        (headPart maxPiece splitting d).bits, (headPart maxPiece splitting d).data d') ∧
      d.Resplit d' ∧ (headPart maxPiece splitting d).Left d' ∧
      (headPart maxPiece splitting d ≠ .whole → splitting = true) := by
  unfold headPiece headPart
  rw [if_neg hstatus]
  cases hsplit : splitting with
  | false =>
    have hunsent : d.status = .unsent := by
      have := hfits.splitting
      cases hcases : d.status <;> simp_all
    simp only [hunsent, Bool.false_eq_true, false_and, if_false]
    exact ⟨d, rfl, .refl d, hunsent, by simp⟩
  | true =>
    simp only [Bool.not_true, Bool.false_eq_true, if_false, true_and]
    cases hcases : d.status with
    | sent => exact absurd hcases hstatus
    | sentFirst =>
      have hpos := hfits.splitPos (.inl hcases)
      simp only [subspanFrom_ok hpos, ok_bind]
      exact ⟨d, rfl, .refl d, ⟨.inr hcases, hpos⟩, by simp⟩
    | sentSecond =>
      have hpos := hfits.splitPos (.inr hcases)
      simp only [subspanTo_ok hpos, ok_bind]
      exact ⟨d, rfl, .refl d, ⟨.inr hcases, hpos⟩, by simp⟩
    | unsent =>
      by_cases hlong : maxPiece < d.size
      · have hpos : maxPiece % 2 ^ 16 ≤ d.size := (Nat.mod_le _ _).trans hlong.le
        simp only [if_pos hlong, subspanTo_ok hpos, ok_bind]
        exact ⟨_, rfl, hcases ▸ Storage.resplit_splitPos hcases _, ⟨.inl rfl, hpos⟩, by simp⟩
      · simp only [if_neg hlong]
        exact ⟨d, rfl, .refl d, hcases, by simp⟩

theorem smallPiece_spec (h : Inv q) (maxPiece : Nat) (preferSmall : Bool) :
    ∃ small, q.smallPiece maxPiece preferSmall = .ok small ∧
      (small ≠ none → q.packetSplitting = true) ∧
      Found q.splitLookahead 0 (q.buf.drop q.head) small := by
  unfold smallPiece
  split_ifs with hprefer
  · have hsplit : q.packetSplitting = true := (Bool.and_eq_true _ _ ▸ hprefer).2
    obtain ⟨small, hsmall, hfound⟩ := lookAhead_spec maxPiece q.splitLookahead 0
      (l := q.buf.drop q.head) (fun k d hd hk => h.waiting.ahead hd (by omega))
      fun d hd => hsplit ▸ h.fits d (List.mem_of_mem_drop hd)
    exact ⟨small, hsmall, fun _ => hsplit, hfound⟩
  · exact ⟨none, rfl, by simp, .nothing⟩

/-- There is nothing to send, or a piece is chosen. -/
theorem choose_spec (h : Inv q) (maxPiece : Nat) (preferSmall : Bool) :
    (q.buf.length ≤ q.head ∧ q.choose maxPiece preferSmall = .ok (none, q)) ∨
    ∃ off d d' part, Chosen q off d d' part ∧ q.choose maxPiece preferSmall =
      .ok (q.prepare (q.head + off) d' part.status part.bits (part.data d')) := by
  unfold choose
  cases hget : q.buf[q.head]? with
  | none => exact .inl ⟨List.getElem?_eq_none_iff.mp hget, rfl⟩
  | some head =>
    refine .inr ?_
    have hmem : head ∈ q.buf := List.mem_of_getElem? hget
    have hwaiting : head ∈ q.buf.drop q.head :=
      List.mem_of_getElem? (i := 0) (by rw [getElem?_waiting]; exact hget)
    obtain ⟨d', hpiece, hresplit, hleft, hsplitting⟩ :=
      headPiece_spec maxPiece (h.waiting.ne_sent hwaiting) (h.fits head hmem)
    obtain ⟨small, hsmall, hsplit, hfound⟩ := smallPiece_spec h maxPiece preferSmall
    simp only [hsmall, ok_bind]
    cases hfound with
    | nothing =>
      simp only [hpiece, ok_bind]
      exact ⟨0, head, d', _, ⟨hget, hresplit, hleft, fun _ => rfl, Nat.zero_le _, hsplitting⟩, rfl⟩
    | @piece k d e hd hresplit hleft hle =>
      rw [getElem?_waiting] at hd
      refine ⟨k, d, e, .second, ⟨hd, hresplit, hleft, by simp, by omega, fun _ => hsplit (by simp)⟩, ?_⟩
      rw [Nat.zero_add]
      rfl

/-! ## Dropping what cannot be sent -/

/-- The datagrams that `fetch` drops. -/
def dropped (maxPiece : Nat) (q : DatagramQueue β) : List (Storage β) :=
  q.buf.takeWhile (·.unsendable maxPiece q.packetSplitting)

/-- The queue without them. -/
def trimmed (maxPiece : Nat) (q : DatagramQueue β) : DatagramQueue β :=
  { q with
    buf := q.buf.dropWhile (·.unsendable maxPiece q.packetSplitting)
    unsentBytes := q.unsentBytes - ((q.dropped maxPiece).map Storage.unsentSize).sum }

theorem dropUnsendable_eq {l : List (Storage β)}
    (hle : ((l.takeWhile (·.unsendable maxPiece q.packetSplitting)).map Storage.unsentSize).sum ≤
      q.unsentBytes) :
    q.dropUnsendable maxPiece l = .ok { q with
      buf := l.dropWhile (·.unsendable maxPiece q.packetSplitting)
      unsentBytes := q.unsentBytes -
        ((l.takeWhile (·.unsendable maxPiece q.packetSplitting)).map Storage.unsentSize).sum } := by
  induction l generalizing q with
  | nil => rfl
  | cons d rest ih =>
    unfold dropUnsendable
    cases hd : d.unsendable maxPiece q.packetSplitting with
    | false => simp [hd]
    | true =>
      simp only [hd, List.takeWhile_cons_of_pos, List.map_cons, List.sum_cons] at hle
      have hsub : q.subUnsent d.unsentSize =
          .ok { q with unsentBytes := q.unsentBytes - d.unsentSize } :=
        if_pos (by omega)
      simp only [if_true, hsub, ok_bind]
      rw [ih (by simp only; omega)]
      simp [hd, Nat.sub_sub]

/-- Sent datagrams at the front are never dropped. -/
theorem Inv.head_eq_zero (h : Inv q) (hne : q.dropped maxPiece ≠ []) : q.head = 0 := by
  by_contra hhead
  cases hbuf : q.buf with
  | nil => simp [dropped, hbuf] at hne
  | cons d rest =>
    obtain ⟨n, hn⟩ := Nat.exists_eq_succ_of_ne_zero hhead
    have hsent : d.status = .sent := h.done d (by simp [hbuf, hn])
    simp [dropped, hbuf, Storage.unsendable, hsent] at hne

theorem dropped_append (maxPiece : Nat) (q : DatagramQueue β) :
    q.dropped maxPiece ++ (q.trimmed maxPiece).buf = q.buf :=
  List.takeWhile_append_dropWhile

theorem trimmed_buf (maxPiece : Nat) (q : DatagramQueue β) :
    (q.trimmed maxPiece).buf = q.buf.drop (q.dropped maxPiece).length := by
  rw [← dropped_append maxPiece q, List.drop_left]

theorem Waiting.drop {l : List (Storage β)} (h : Waiting l) (n : Nat) : Waiting (l.drop n) := by
  induction n with
  | zero => exact h
  | succ n ih =>
    rw [← List.tail_drop]
    exact ih.tail

theorem Inv.total_trimmed (h : Inv q) (maxPiece : Nat) :
    (q.trimmed maxPiece).total + ((q.dropped maxPiece).map Storage.unsent).sum = q.total := by
  have hsplit := dropped_append maxPiece q
  by_cases hnil : q.dropped maxPiece = []
  · rw [hnil, List.nil_append] at hsplit
    rw [total, total, hsplit, hnil]
    rfl
  · have hhead := h.head_eq_zero hnil
    have hhead' : (q.trimmed maxPiece).head = 0 := hhead
    rw [total, total, hhead, hhead', List.drop_zero, List.drop_zero, ← hsplit, List.map_append,
      List.sum_append, Nat.add_comm]

theorem sum_unsentSize_le {splitting : Bool} {l : List (Storage β)}
    (hfits : ∀ d ∈ l, d.Fits splitting) :
    (l.map Storage.unsentSize).sum ≤ (l.map Storage.unsent).sum := by
  refine List.sum_le_sum fun d hd => ?_
  rw [Storage.unsentSize_eq (hfits d hd)]
  exact Nat.mod_le _ _

theorem Inv.dropped_fits (h : Inv q) (maxPiece : Nat) :
    ∀ d ∈ q.dropped maxPiece, d.Fits q.packetSplitting :=
  fun d hd => h.fits d ((List.takeWhile_sublist _).mem hd)

theorem Inv.trimmed (h : Inv q) (maxPiece : Nat) : Inv (q.trimmed maxPiece) := by
  have hsplit := dropped_append maxPiece q
  have hfits : ∀ d ∈ (q.trimmed maxPiece).buf, d.Fits q.packetSplitting :=
    fun d hd => h.fits d ((List.dropWhile_sublist _).mem hd)
  by_cases hnil : q.dropped maxPiece = []
  · rw [hnil, List.nil_append] at hsplit
    exact ⟨hsplit ▸ h.head_le, hsplit ▸ h.done, hsplit ▸ h.waiting, hfits⟩
  · have hhead : (q.trimmed maxPiece).head = 0 := h.head_eq_zero hnil
    refine ⟨by simp [hhead], by simp [hhead], ?_, hfits⟩
    have hwaiting := h.waiting
    rw [h.head_eq_zero hnil, List.drop_zero] at hwaiting
    rw [hhead, List.drop_zero, trimmed_buf]
    exact hwaiting.drop _

theorem Inv.trimmed_bytes (h : Inv q) (hbytes : q.total ≤ q.unsentBytes) (maxPiece : Nat) :
    (q.trimmed maxPiece).total ≤ (q.trimmed maxPiece).unsentBytes := by
  have htotal := h.total_trimmed maxPiece
  have hle := sum_unsentSize_le (h.dropped_fits maxPiece)
  change _ ≤ q.unsentBytes - _
  omega

theorem fetch_eq (h : Inv q) (hbytes : q.total ≤ q.unsentBytes) (maxPiece : Nat)
    (preferSmall : Bool) :
    q.fetch maxPiece preferSmall = (q.trimmed maxPiece).choose maxPiece preferSmall := by
  have htotal := h.total_trimmed maxPiece
  have hle := sum_unsentSize_le (h.dropped_fits maxPiece)
  rw [fetch, dropUnsendable_eq (by rw [dropped] at *; omega), ok_bind]
  rfl

/-! ## A piece that has been fetched -/

/-- What the queue remembers of the piece it returned. -/
structure Ready (q : DatagramQueue β) (off : Nat) (d : Storage β) (part : Part) : Prop where
  get : q.buf[q.head + off]? = some d
  left : part.Left d
  head : part ≠ .second → off = 0
  splitting : part ≠ .whole → q.packetSplitting = true
  lastI : q.lastI = q.head + off
  lastSent : q.lastSent = part.status
  lastSize : q.lastSize = (part.data d).length

theorem sum_map_set {l : List (Storage β)} {d : Storage β} {k : Nat} (e : Storage β)
    (hd : l[k]? = some d) :
    ((l.set k e).map Storage.unsent).sum + d.unsent = (l.map Storage.unsent).sum + e.unsent := by
  induction l generalizing k with
  | nil => simp at hd
  | cons a rest ih =>
    cases k with
    | zero =>
      obtain rfl : a = d := by simpa using hd
      simp
      omega
    | succ k =>
      have := ih (k := k) (by simpa using hd)
      simp only [List.set_cons_succ, List.map_cons, List.sum_cons]
      omega

/-- The queue with the datagram `off` behind the head replaced. -/
theorem drop_set_waiting {off : Nat} (e : Storage β) :
    (q.buf.set (q.head + off) e).drop q.head = (q.buf.drop q.head).set off e := by
  rw [List.drop_set, if_neg (by omega), Nat.add_sub_cancel_left]

theorem take_set_waiting {off : Nat} (e : Storage β) :
    (q.buf.set (q.head + off) e).take q.head = q.buf.take q.head := by
  rw [List.take_set, List.set_eq_of_length_le (by simp)]

/-- A queue where one waiting datagram is replaced. -/
theorem Inv.replace {q' : DatagramQueue β} {off : Nat} {e : Storage β} (h : Inv q)
    (hbuf : q'.buf = q.buf.set (q.head + off) e) (hhead : q'.head = q.head)
    (hsplitting : q'.packetSplitting = q.packetSplitting) (hfits : e.Fits q.packetSplitting)
    (hzero : off = 0 → e.status ≠ .sent)
    (hahead : off ≠ 0 → e.status = .unsent ∨ e.status = .sentSecond) : Inv q' where
  head_le := by rw [hbuf, hhead, List.length_set]; exact h.head_le
  done := by rw [hbuf, hhead, take_set_waiting]; exact h.done
  waiting := by rw [hbuf, hhead, drop_set_waiting]; exact h.waiting.set hzero hahead
  fits := by
    intro d hd
    rw [hbuf] at hd
    rw [hsplitting]
    rcases List.mem_or_eq_of_mem_set hd with hd | rfl
    · exact h.fits d hd
    · exact hfits

theorem total_replace (q' : DatagramQueue β) {off : Nat} {d e : Storage β}
    (hd : q.buf[q.head + off]? = some d) (hbuf : q'.buf = q.buf.set (q.head + off) e)
    (hhead : q'.head = q.head) : q'.total + d.unsent = q.total + e.unsent := by
  rw [total, total, hbuf, hhead, drop_set_waiting]
  exact sum_map_set e (by rw [getElem?_waiting]; exact hd)

section Chosen

variable {off : Nat} {d d' : Storage β} {part : Part}

theorem Chosen.ready (hc : Chosen q off d d' part) :
    Ready (q.prepare (q.head + off) d' part.status part.bits (part.data d')).2 off d' part where
  get := by
    have hlt := (List.getElem?_eq_some_iff.mp hc.get).1
    exact List.getElem?_set_self hlt
  left := hc.left
  head := hc.head
  splitting := hc.splitting
  lastI := rfl
  lastSent := rfl
  lastSize := rfl

theorem Chosen.inv (hc : Chosen q off d d' part) (h : Inv q) :
    Inv (q.prepare (q.head + off) d' part.status part.bits (part.data d')).2 := by
  have hd : (q.buf.drop q.head)[off]? = some d := by rw [getElem?_waiting]; exact hc.get
  refine h.replace rfl rfl rfl (hc.resplit.fits (h.fits d (List.mem_of_getElem? hc.get))) ?_ ?_
  · intro _
    rw [hc.resplit.status]
    exact h.waiting.ne_sent (List.mem_of_getElem? hd)
  · intro hoff
    rw [hc.resplit.status]
    exact h.waiting.ahead hd hoff

theorem Chosen.total (hc : Chosen q off d d' part) :
    (q.prepare (q.head + off) d' part.status part.bits (part.data d')).2.total = q.total := by
  have := total_replace (q.prepare (q.head + off) d' part.status part.bits (part.data d')).2
    (e := d') hc.get rfl rfl
  have := hc.resplit.unsent_eq
  omega

end Chosen

/-- `fetch` leaves a queue that lacks only what it dropped, and remembers what it returns. -/
theorem fetch_spec (h : Inv q) (hbytes : q.total ≤ q.unsentBytes) (maxPiece : Nat)
    (preferSmall : Bool) :
    ∃ out q', q.fetch maxPiece preferSmall = .ok (out, q') ∧ Inv q' ∧
      q'.total = (q.trimmed maxPiece).total ∧
      q'.unsentBytes = (q.trimmed maxPiece).unsentBytes ∧
      (out.isSome = true → ∃ off d part, Ready q' off d part) := by
  have hfetch := fetch_eq h hbytes maxPiece preferSmall
  have hq := h.trimmed maxPiece
  rcases choose_spec hq maxPiece preferSmall with ⟨-, hchoose⟩ |
    ⟨off, d, d', part, hchosen, hchoose⟩
  · exact ⟨_, _, hfetch.trans hchoose, hq, rfl, rfl, by simp⟩
  · exact ⟨_, _, hfetch.trans hchoose, hchosen.inv hq, hchosen.total, rfl,
      fun _ => ⟨off, d', part, hchosen.ready⟩⟩

/-! ## Confirming -/

section Confirm

variable {off : Nat} {d : Storage β} {part : Part}

/-- The queue with the part marked as sent. -/
def marked (off : Nat) (d : Storage β) (part : Part) (q : DatagramQueue β) : DatagramQueue β :=
  { q with
    buf := q.buf.set (q.head + off) (part.mark d)
    unsentBytes := q.unsentBytes - q.lastSize
    lastI := 2 ^ 64 - 1 }

/-- The queue once its head is fully sent. -/
def popped (q : DatagramQueue β) : DatagramQueue β :=
  match q.earlyDataHead with
  | some head => { q with earlyDataHead := some (head + 1) }
  | none => { q with buf := q.buf.tail }

/-- The queue once the piece it returned has been sent. -/
def confirmed (off : Nat) (d : Storage β) (part : Part) (q : DatagramQueue β) : DatagramQueue β :=
  if (part.mark d).status = .sent then (q.marked off d part).popped else q.marked off d part

/-- Behind the head there is only a second part to send, with the first still there. -/
theorem Ready.ahead (hr : Ready q off d part) (h : Inv q) (hoff : off ≠ 0) :
    part = .second ∧ d.status = .unsent := by
  have hpart : part = .second := by
    by_contra hne
    exact hoff (hr.head hne)
  have hd : (q.buf.drop q.head)[off]? = some d := by rw [getElem?_waiting]; exact hr.get
  have hleft := hr.left
  rw [hpart] at hleft
  rcases h.waiting.ahead hd hoff with hstatus | hstatus
  · exact ⟨hpart, hstatus⟩
  · rcases hleft.1 with hstatus' | hstatus' <;> simp [hstatus] at hstatus'

theorem Ready.mark_ahead (hr : Ready q off d part) (h : Inv q) (hoff : off ≠ 0) :
    (part.mark d).status = .sentSecond := by
  obtain ⟨rfl, hstatus⟩ := hr.ahead h hoff
  rw [hr.left.status_mark, if_pos hstatus]
  rfl

/-- Only the head can be completed. -/
theorem Ready.off_eq_zero (hr : Ready q off d part) (h : Inv q)
    (hsent : (part.mark d).status = .sent) : off = 0 := by
  by_contra hoff
  simp [hr.mark_ahead h hoff] at hsent

theorem popSent_eq (status : SendStatus) (hlast : status = .sent → q.lastI = q.head) :
    q.popSent status = .ok (if status = .sent then q.popped else q) := by
  unfold popSent popped
  by_cases hsent : status = .sent
  · have := hlast hsent
    cases hearly : q.earlyDataHead <;> simp [hsent, this]
  · simp [hsent]

theorem confirmSent_eq (hr : Ready q off d part) (h : Inv q) (hbytes : q.lastSize ≤ q.unsentBytes) :
    q.confirmSent = .ok (q.confirmed off d part) := by
  have hget : q.buf[q.lastI]? = some d := by rw [hr.lastI]; exact hr.get
  have hmark : { d with status := d.status.or q.lastSent } = part.mark d := by
    rw [hr.lastSent]
    rfl
  have hlast : (part.mark d).status = .sent → q.lastI = q.head := by
    intro hsent
    have hlast := hr.lastI
    rwa [hr.off_eq_zero h hsent] at hlast
  have hpop := popSent_eq (q := { q with
    buf := q.buf.set q.lastI (part.mark d)
    unsentBytes := q.unsentBytes - q.lastSize }) (part.mark d).status hlast
  rw [confirmSent, hget]
  simp only [hmark, subUnsent, if_pos hbytes, ok_bind]
  rw [show d.status.or q.lastSent = (part.mark d).status from congrArg Storage.status hmark]
  refine (congrArg (· >>= _) hpop).trans ?_
  rw [ok_bind, confirmed, marked, popped, popped, hr.lastI]
  congr 1
  split_ifs
  · cases hearly : q.earlyDataHead <;> rfl
  · rfl

/-- Outside early data. -/
theorem confirmed_eq (hr : Ready q off d part) (h : Inv q) (hearly : q.earlyDataHead = none) :
    q.confirmed off d part = { q with
      buf := if (part.mark d).status = .sent then q.buf.tail else q.buf.set off (part.mark d)
      unsentBytes := q.unsentBytes - q.lastSize
      lastI := 2 ^ 64 - 1 } := by
  have hhead : q.head = 0 := by simp [head, hearly]
  unfold confirmed marked popped
  rw [hhead, Nat.zero_add, hearly]
  split_ifs with hsent
  · obtain rfl := hr.off_eq_zero h hsent
    cases q.buf <;> rfl
  · rfl

theorem unsentBytes_confirmed (q : DatagramQueue β) (off : Nat) (d : Storage β) (part : Part) :
    (q.confirmed off d part).unsentBytes = q.unsentBytes - q.lastSize := by
  unfold confirmed marked popped
  cases q.earlyDataHead <;> simp only [] <;> split_ifs <;> rfl

theorem Ready.lastSize_le (hr : Ready q off d part) : q.lastSize ≤ q.total := by
  have hle : d.unsent ≤ q.total := by
    refine List.le_sum_of_mem (List.mem_map.mpr ⟨d, ?_, rfl⟩)
    exact List.mem_of_getElem? (i := off) (by rw [getElem?_waiting]; exact hr.get)
  have := hr.left.unsent_mark
  have := hr.lastSize
  omega

theorem drop_head (hget : q.buf[q.head]? = some d) :
    q.buf.drop q.head = d :: q.buf.drop (q.head + 1) := by
  obtain ⟨hlt, heq⟩ := List.getElem?_eq_some_iff.mp hget
  rw [← heq, List.drop_eq_getElem_cons hlt]

theorem drop_popped : (q.popped.buf.drop q.popped.head) = q.buf.drop (q.head + 1) := by
  unfold popped head
  cases hearly : q.earlyDataHead with
  | some head => rfl
  | none => simp

theorem drop_marked :
    (q.marked 0 d part).buf.drop ((q.marked 0 d part).head + 1) = q.buf.drop (q.head + 1) := by
  change (q.buf.set q.head _).drop (q.head + 1) = _
  rw [List.drop_set, if_pos (by omega)]

theorem Ready.inv_popped (hr : Ready q 0 d part) (h : Inv q) (hsent : (part.mark d).status = .sent) :
    Inv (q.marked 0 d part).popped := by
  have hget : q.buf[q.head]? = some d := hr.get
  have hlt := (List.getElem?_eq_some_iff.mp hget).1
  have hfits : ∀ e ∈ q.buf.set q.head (part.mark d), e.Fits q.packetSplitting := by
    intro e he
    rcases List.mem_or_eq_of_mem_set he with he | rfl
    · exact h.fits e he
    · exact ⟨by simp [hsent], by simp [hsent]⟩
  have hwaiting : Waiting ((q.marked 0 d part).popped.buf.drop (q.marked 0 d part).popped.head) := by
    rw [drop_popped, drop_marked, ← List.tail_drop]
    exact h.waiting.tail
  cases hearly : q.earlyDataHead with
  | some n =>
    have hhead : q.head = n := by simp [DatagramQueue.head, hearly]
    have hpopped : (q.marked 0 d part).popped =
        { q.marked 0 d part with earlyDataHead := some (n + 1) } := by
      simp only [popped, marked, hearly]
    rw [hpopped] at hwaiting ⊢
    refine ⟨?_, ?_, hwaiting, hfits⟩
    · change n + 1 ≤ (q.buf.set q.head _).length
      rw [List.length_set]
      omega
    · change ∀ e ∈ (q.buf.set q.head (part.mark d)).take (n + 1), e.status = .sent
      intro e he
      rw [← hhead, List.take_add_one, List.getElem?_set_self hlt, List.take_set,
        List.set_eq_of_length_le (by simp)] at he
      rcases List.mem_append.mp he with he | he
      · exact h.done e he
      · rw [Option.mem_toList.mp he |> Option.some.inj |>.symm]
        exact hsent
  | none =>
    have hpopped : (q.marked 0 d part).popped =
        { q.marked 0 d part with buf := (q.marked 0 d part).buf.tail } := by
      simp only [popped, marked, hearly]
    have hhead : q.head = 0 := by simp [DatagramQueue.head, hearly]
    rw [hpopped] at hwaiting ⊢
    refine ⟨?_, ?_, hwaiting, fun e he => hfits e (List.mem_of_mem_tail he)⟩
    · exact hhead.trans_le (Nat.zero_le _)
    · change ∀ e ∈ List.take q.head _, _
      simp [hhead]

theorem Ready.mark_fits (hr : Ready q off d part) (hsent : (part.mark d).status ≠ .sent) :
    (part.mark d).Fits q.packetSplitting := by
  have hleft := hr.left
  cases part with
  | whole =>
    have hstatus : d.status = .unsent := hleft
    simp [hleft.status_mark, hstatus, Part.status] at hsent
  | first => exact ⟨fun _ => hr.splitting (by simp), fun _ => hleft.2⟩
  | second => exact ⟨fun _ => hr.splitting (by simp), fun _ => hleft.2⟩

theorem Ready.confirmed (hr : Ready q off d part) (h : Inv q) :
    Inv (q.confirmed off d part) ∧ (q.confirmed off d part).total + q.lastSize = q.total := by
  have hmark := hr.left.unsent_mark
  have hlast := hr.lastSize
  unfold DatagramQueue.confirmed
  by_cases hsent : (part.mark d).status = .sent
  · obtain rfl := hr.off_eq_zero h hsent
    rw [if_pos hsent]
    refine ⟨hr.inv_popped h hsent, ?_⟩
    have hzero : (part.mark d).unsent = 0 := by simp only [Storage.unsent, hsent]
    rw [total, total, drop_popped, drop_marked, drop_head hr.get, List.map_cons, List.sum_cons]
    omega
  · rw [if_neg hsent]
    refine ⟨h.replace rfl rfl rfl (hr.mark_fits hsent) (fun _ => hsent)
      (fun hoff => .inr (hr.mark_ahead h hoff)), ?_⟩
    have := total_replace (q.marked off d part) hr.get rfl rfl
    omega

end Confirm

/-! ## Queueing -/

theorem Inv.emplace (h : Inv q) (payload : List β) (baseDgid : Nat) :
    Inv (q.emplace payload baseDgid) ∧
      (q.emplace payload baseDgid).total = q.total + payload.length := by
  have hdrop : (q.emplace payload baseDgid).buf.drop q.head =
      q.buf.drop q.head ++ [{ baseDgid := baseDgid, payload := payload }] :=
    List.drop_append_of_le_length h.head_le
  refine ⟨⟨?_, ?_, ?_, ?_⟩, ?_⟩
  · have := h.head_le
    change q.head ≤ (q.buf ++ [_]).length
    rw [List.length_append]
    omega
  · have htake : (q.emplace payload baseDgid).buf.take q.head = q.buf.take q.head :=
      List.take_append_of_le_length h.head_le
    exact fun d hd => h.done d (htake ▸ hd)
  · change Waiting ((q.emplace payload baseDgid).buf.drop q.head)
    rw [hdrop]
    exact h.waiting.append rfl
  · intro d hd
    rcases List.mem_append.mp hd with hd | hd
    · exact h.fits d hd
    · rw [List.mem_singleton.mp hd]
      exact ⟨by simp, by simp⟩
  · change (((q.emplace payload baseDgid).buf.drop q.head).map Storage.unsent).sum = _
    rw [hdrop, List.map_append, List.sum_append]
    simp [total, Storage.unsent, Storage.size]

theorem Ready.emplace {off : Nat} {d : Storage β} {part : Part} (hr : Ready q off d part)
    (payload : List β) (baseDgid : Nat) : Ready (q.emplace payload baseDgid) off d part where
  get := by
    have hlt := (List.getElem?_eq_some_iff.mp hr.get).1
    exact (List.getElem?_append_left hlt).trans hr.get
  left := hr.left
  head := hr.head
  splitting := hr.splitting
  lastI := hr.lastI
  lastSent := hr.lastSent
  lastSize := hr.lastSize

/-! ## Early data -/

theorem Waiting.of_unsent {l : List (Storage β)}
    (h : ∀ d ∈ l, d.status = .unsent ∨ d.status = .sentSecond) : Waiting l := by
  cases l with
  | nil => trivial
  | cons head rest =>
    refine ⟨?_, fun d hd => h d (by simp [hd])⟩
    rcases h head (by simp) with hstatus | hstatus <;> simp [hstatus]

/-- What is sent does not count. -/
theorem Inv.total_eq (h : Inv q) : q.total = (q.buf.map Storage.unsent).sum := by
  have hzero : ((q.buf.take q.head).map Storage.unsent).sum = 0 := by
    refine List.sum_eq_zero fun n hn => ?_
    obtain ⟨d, hd, rfl⟩ := List.mem_map.mp hn
    simp only [Storage.unsent, h.done d hd]
  have hsum : (q.buf.map Storage.unsent).sum =
      ((q.buf.take q.head).map Storage.unsent).sum +
        ((q.buf.drop q.head).map Storage.unsent).sum := by
    rw [← List.sum_append, ← List.map_append, List.take_append_drop]
  rw [hsum, hzero, Nat.zero_add]
  rfl

/-- The datagrams that `early_data_retry` visits. -/
def visited (q : DatagramQueue β) : List (Storage β) :=
  match q.earlyDataHead with
  | none => []
  | some head => q.buf.take (q.retryLimit head + 1)

theorem retryBytes_eq (splitting : Bool) (l : List (Storage β))
    (hfits : ∀ d ∈ l, d.Fits splitting) :
    ∃ bytes, retryBytes l = .ok bytes ∧
      bytes + (l.map Storage.unsentSize).sum = (l.map Storage.size).sum := by
  induction l with
  | nil => exact ⟨0, rfl, rfl⟩
  | cons d rest ih =>
    obtain ⟨others, hothers, hsum⟩ := ih fun e he => hfits e (by simp [he])
    have hle : d.unsentSize ≤ d.size := by
      have hfit := hfits d (by simp)
      rw [Storage.unsentSize_eq hfit]
      exact (Nat.mod_le _ _).trans (Storage.unsent_le_size hfit)
    refine ⟨d.size - d.unsentSize + others, ?_, ?_⟩
    · simp only [retryBytes, if_pos hle, hothers, ok_bind]
    · simp only [List.map_cons, List.sum_cons]
      omega

theorem earlyDataRetry_spec {head : Nat} (h : Inv q) (hearly : q.earlyDataHead = some head) :
    ∃ q', q.earlyDataRetry = .ok q' ∧ Inv q' ∧ q'.earlyDataHead = some 0 ∧
      q'.buf = q.visited.map Storage.unsend ++ q.buf.drop (q.retryLimit head + 1) ∧
      q'.unsentBytes + (q.visited.map Storage.unsentSize).sum =
        q.unsentBytes + (q.visited.map Storage.size).sum ∧
      q'.total + (q.visited.map Storage.unsent).sum = q.total + (q.visited.map Storage.size).sum := by
  have hvisited : q.visited = q.buf.take (q.retryLimit head + 1) := by simp only [visited, hearly]
  have hhead : q.head = head := by simp [DatagramQueue.head, hearly]
  obtain ⟨bytes, hbytes, hsum⟩ := retryBytes_eq q.packetSplitting q.visited
    fun d hd => h.fits d (List.mem_of_mem_take (hvisited ▸ hd))
  have hretry : q.earlyDataRetry = .ok { q with
      unsentBytes := q.unsentBytes + bytes
      buf := q.visited.map Storage.unsend ++ q.buf.drop (q.retryLimit head + 1)
      earlyDataHead := some 0 } := by
    unfold earlyDataRetry
    rw [hearly]
    simp only [← hvisited, hbytes, ok_bind]
  -- the rest lies behind the head
  have hrest : ∀ d ∈ q.buf.drop (q.retryLimit head + 1),
      d.status = .unsent ∨ d.status = .sentSecond := by
    intro d hd
    obtain ⟨k, hk⟩ := List.mem_iff_getElem?.mp hd
    rw [List.getElem?_drop] at hk
    have hlimit : head ≤ q.retryLimit head := Nat.le_add_right _ _
    refine h.waiting.ahead (k := q.retryLimit head + 1 + k - head) ?_ (by omega)
    rw [getElem?_waiting, hhead, ← hk]
    congr 1
    omega
  refine ⟨_, hretry, ⟨?_, ?_, ?_, ?_⟩, rfl, rfl, by simp only; omega, ?_⟩
  · exact Nat.zero_le _
  · exact fun d hd => by simp [DatagramQueue.head] at hd
  · change Waiting (List.drop 0 _)
    refine Waiting.of_unsent fun d hd => ?_
    rcases List.mem_append.mp hd with hd | hd
    · obtain ⟨e, -, rfl⟩ := List.mem_map.mp hd
      exact .inl rfl
    · exact hrest d hd
  · intro d hd
    rcases List.mem_append.mp hd with hd | hd
    · obtain ⟨e, -, rfl⟩ := List.mem_map.mp hd
      exact ⟨by simp [Storage.unsend], by simp [Storage.unsend]⟩
    · exact h.fits d (List.mem_of_mem_drop hd)
  · have hall : (q.buf.map Storage.unsent).sum = (q.visited.map Storage.unsent).sum +
        ((q.buf.drop (q.retryLimit head + 1)).map Storage.unsent).sum := by
      rw [hvisited, ← List.sum_append, ← List.map_append, List.take_append_drop]
    rw [h.total_eq, hall]
    change ((List.drop 0 _).map Storage.unsent).sum + _ = _
    rw [List.drop_zero, List.map_append, List.sum_append, List.map_map]
    have hunsend : q.visited.map (Storage.unsent ∘ Storage.unsend) = q.visited.map Storage.size := rfl
    rw [hunsend]
    omega

theorem earlyDataEnd_accepted {head : Nat} (h : Inv q) (hearly : q.earlyDataHead = some head) :
    q.earlyDataEnd true = .ok { q with buf := q.buf.drop head, earlyDataHead := none } ∧
      Inv { q with buf := q.buf.drop head, earlyDataHead := none } ∧
      total { q with buf := q.buf.drop head, earlyDataHead := none } = q.total := by
  have hhead : q.head = head := by simp [DatagramQueue.head, hearly]
  have hle := h.head_le
  have hwaiting := h.waiting
  rw [hhead] at hle hwaiting
  refine ⟨?_, ⟨?_, ?_, hwaiting, fun d hd => h.fits d (List.mem_of_mem_drop hd)⟩, ?_⟩
  · simp only [earlyDataEnd, hearly, if_true, if_pos hle]
  · exact Nat.zero_le _
  · exact fun d hd => by simp [DatagramQueue.head] at hd
  · rw [total, total, hhead]
    rfl

end DatagramQueue

theorem Datagrams.pending_of_fetch {β : Type} {d : Datagrams β} {maxPiece : Nat}
    {preferSmall : Bool} {out : Option (Prepared β)} {q : DatagramQueue β}
    (h : d.sendBuffer.fetch maxPiece preferSmall = .ok (out, q)) :
    d.pending maxPiece preferSmall = .ok (out, { d with sendBuffer := q }) := by
  rw [Datagrams.pending, h]
  rfl

end Libquic
