import Libquic.Datagram.Pending

/-!
# The size of the pieces

Whether a piece that `fetch` returns is within the maximum it was called with. Datagrams that are
too long are dropped off the front of the queue only: in early data the front is a datagram that
is already sent, and the lookahead takes the rest of a datagram without asking how long it is.
-/
namespace Libquic

open Lib

variable {β : Type}

namespace Storage

variable {d d' : Storage β} {maxPiece : Nat} {splitting : Bool}

/-- What is left of the datagram can be sent in pieces of at most `maxPiece` bytes: in one piece,
or in two if it may be split and nothing of it is gone. -/
def Sendable (maxPiece : Nat) (splitting : Bool) (d : Storage β) : Prop :=
  match d.status with
  | .sent => True
  | .unsent => d.size ≤ maxPiece * (if splitting then 2 else 1)
  | .sentFirst => d.size - d.splitPos ≤ maxPiece
  | .sentSecond => d.splitPos ≤ maxPiece

instance (maxPiece : Nat) (splitting : Bool) (d : Storage β) :
    Decidable (d.Sendable maxPiece splitting) :=
  decidable_of_iff (d.status = .sent ∨
      d.status = .unsent ∧ d.size ≤ maxPiece * (if splitting then 2 else 1) ∨
      d.status = .sentFirst ∧ d.size - d.splitPos ≤ maxPiece ∨
      d.status = .sentSecond ∧ d.splitPos ≤ maxPiece)
    (by unfold Sendable; cases d.status <;> simp)

theorem Resplit.sendable_iff (h : Resplit d d') :
    d'.Sendable maxPiece splitting ↔ d.Sendable maxPiece splitting := by
  have hsize : d'.size = d.size := congrArg List.length h.payload
  have hpos := h.splitPos
  simp only [Sendable, h.status, hsize]
  cases hstatus : d.status <;> simp_all

/-- The code's own test errs on the side of dropping. -/
theorem sendable_of_not_unsendable (hfits : d.Fits splitting) (hsize : d.size < 2 ^ 64)
    (h : d.unsendable maxPiece splitting = false) : d.Sendable maxPiece splitting := by
  unfold unsendable at h
  unfold Sendable
  cases hstatus : d.status with
  | sent => trivial
  | unsent =>
    simp only [hstatus, decide_eq_false_iff_not, Nat.not_lt] at h
    exact h.trans (Nat.mod_le _ _)
  | sentFirst =>
    have hpos := hfits.splitPos (.inl hstatus)
    have hle : sizeSub d.size d.splitPos ≤ maxPiece := by simpa [hstatus] using h
    unfold sizeSub at hle
    dsimp only
    omega
  | sentSecond => simpa [hstatus] using h

/-- Where the datagram is split: where it was if a part of it is gone, and where the maximum says
if not, as far as 16 bits hold that. -/
def splitFor (maxPiece : Nat) (d : Storage β) : Nat :=
  if d.status = .unsent then maxPiece % 2 ^ 16 else d.splitPos

end Storage

/-- The bytes of a part of the datagram. -/
def Part.sizeIn (maxPiece : Nat) (d : Storage β) : Part → Nat
  | whole => d.size
  | first => d.splitFor maxPiece
  | second => d.size - d.splitFor maxPiece

namespace DatagramQueue

variable {q q' : DatagramQueue β} {d d' : Storage β} {maxPiece : Nat}

/-! ## Where datagrams are split -/

/-- A datagram whose parts are both left is split where the maximum says, as far as 16 bits hold
it, and only if it has to be. -/
def SplitAt (maxPiece : Nat) (d : Storage β) : Prop :=
  d.status = .unsent → d.splitPos = maxPiece % 2 ^ 16 ∧ maxPiece < d.size

theorem lookAhead_splitAt {lookahead off k : Nat} {l : List (Storage β)} {part : List β}
    (h : lookAhead maxPiece lookahead off l = .ok (some (k, d, part))) : SplitAt maxPiece d := by
  fun_induction lookAhead maxPiece lookahead off l with
  | case1 | case2 | case4 => cases h
  | case3 _ _ _ _ _ ih | case7 _ _ _ _ _ _ _ _ ih => exact ih h
  | case5 off e rest _ _ _ hfirst =>
    obtain ⟨part, -, h⟩ := bind_ok h
    cases h
    intro hunsent
    cases hfirst.symm.trans hunsent
  | case6 off e rest _ _ _ hfirst hlong _ =>
    obtain ⟨part, -, h⟩ := bind_ok h
    simp only [Except.ok.injEq, Option.some.injEq, Prod.mk.injEq] at h
    obtain ⟨-, rfl, -⟩ := h
    exact fun _ => ⟨rfl, hlong⟩

/-- A part of the head is taken where the maximum says. -/
theorem headPiece_splitAt {splitting : Bool} {status : SendStatus} {bits : Nat} {part : List β}
    (h : headPiece maxPiece splitting d = .ok (d', status, bits, part)) (hpart : status ≠ .sent) :
    SplitAt maxPiece d' := by
  unfold headPiece at h
  by_cases hsent : d.status = .sent
  · rw [if_pos hsent] at h
    cases h
  rw [if_neg hsent] at h
  by_cases hsplit : (!splitting) = true
  · rw [if_pos hsplit] at h
    cases h
    exact absurd rfl hpart
  rw [if_neg hsplit] at h
  split at h
  next hstatus =>
    obtain ⟨part, -, h⟩ := bind_ok h
    cases h
    exact fun hunsent => by simp [hstatus] at hunsent
  next hstatus =>
    obtain ⟨part, -, h⟩ := bind_ok h
    cases h
    exact fun hunsent => by simp [hstatus] at hunsent
  next =>
    split_ifs at h with hlong
    · obtain ⟨part, -, h⟩ := bind_ok h
      cases h
      exact fun _ => ⟨rfl, hlong⟩
    · cases h
      exact absurd rfl hpart

theorem prepare_inj {i j bits bits' : Nat} {status status' : SendStatus} {part part' : List β}
    (hlt : j < q.buf.length)
    (h : q.prepare i d status bits part = q.prepare j d' status' bits' part') :
    d = d' ∧ status = status' := by
  simp only [prepare, Prod.mk.injEq, DatagramQueue.mk.injEq] at h
  obtain ⟨-, -, -, rfl, rfl, -, -, hbuf, -⟩ := h
  have hget := congrArg (·[i]?) hbuf
  simpa [hlt] using hget

/-- What is known of the split of the datagram that a piece was chosen from. -/
theorem choose_splitAt {off : Nat} {part : Part} {preferSmall : Bool} (hc : Chosen q off d d' part)
    (h : q.choose maxPiece preferSmall =
      .ok (q.prepare (q.head + off) d' part.status part.bits (part.data d')))
    (hpart : part ≠ .whole) : SplitAt maxPiece d' := by
  have hlt : q.head + off < q.buf.length := (List.getElem?_eq_some_iff.mp hc.get).1
  unfold choose at h
  cases hhead : q.buf[q.head]? with
  | none => simp [hhead, prepare] at h
  | some head =>
    simp only [hhead] at h
    obtain ⟨small, hsmall, h⟩ := bind_ok h
    cases small with
    | some piece =>
      obtain ⟨k, e, rest⟩ := piece
      obtain ⟨rfl, -⟩ := prepare_inj hlt (Except.ok.inj h)
      unfold smallPiece at hsmall
      split at hsmall
      · exact lookAhead_splitAt hsmall
      · cases hsmall
    | none =>
      obtain ⟨⟨e, status, bits, rest⟩, hpiece, h⟩ := bind_ok h
      obtain ⟨rfl, rfl⟩ := prepare_inj hlt (Except.ok.inj h)
      refine headPiece_splitAt hpiece ?_
      cases part <;> simp_all [Part.status]

/-! ## What is sent next

Which datagram `fetch` takes a piece of, and which piece, as it is settled before the call.
-/

/-- The second part of the datagram is left, and is a piece of its own. -/
def HasSmall (maxPiece : Nat) (d : Storage β) : Prop :=
  d.status = .sentFirst ∨ d.status = .unsent ∧ maxPiece < d.size

instance (maxPiece : Nat) (d : Storage β) : Decidable (HasSmall maxPiece d) :=
  inferInstanceAs (Decidable (_ ∨ _))

/-- The datagram whose second part is taken because small pieces are preferred. -/
def ahead (maxPiece : Nat) (preferSmall : Bool) (q : DatagramQueue β) : Option (Storage β) :=
  if preferSmall && q.packetSplitting then
    ((q.buf.drop q.head).take (q.splitLookahead + 1)).find? (HasSmall maxPiece ·)
  else none

def pick (maxPiece : Nat) (preferSmall : Bool) (q : DatagramQueue β) :
    Option (Storage β × Part) :=
  match q.ahead maxPiece preferSmall with
  | some d => some (d, .second)
  | none => q.buf[q.head]?.map fun d => (d, headPart maxPiece q.packetSplitting d)

theorem hasSmall_of_ahead {preferSmall : Bool} (h : q.ahead maxPiece preferSmall = some d) :
    HasSmall maxPiece d ∧ d ∈ q.buf.drop q.head ∧ q.packetSplitting = true := by
  unfold ahead at h
  split_ifs at h with hprefer
  exact ⟨by simpa using List.find?_some h, List.mem_of_mem_take (List.mem_of_find?_eq_some h),
    (Bool.and_eq_true _ _ ▸ hprefer).2⟩

/-- A lookahead that is not over yet begins with the datagram it has come to. -/
theorem find?_take_lookahead {lookahead off : Nat} (hfar : off ≤ lookahead) (d : Storage β)
    (rest : List (Storage β)) (p : Storage β → Bool) :
    ((d :: rest).take (lookahead + 1 - off)).find? p =
      if p d then some d else (rest.take (lookahead + 1 - (off + 1))).find? p := by
  have hsucc : lookahead + 1 - off = lookahead + 1 - (off + 1) + 1 := by omega
  rw [hsucc, List.take_succ_cons]
  split_ifs with hd
  · exact List.find?_cons_of_pos hd
  · exact List.find?_cons_of_neg hd

/-- The lookahead stops at the first datagram with a small piece. -/
theorem lookAhead_find {lookahead off : Nat} {l : List (Storage β)}
    {result : Option (Nat × Storage β × List β)}
    (h : lookAhead maxPiece lookahead off l = .ok result) :
    result = none ∧ (l.take (lookahead + 1 - off)).find? (HasSmall maxPiece ·) = none ∨
    ∃ k d d' part, result = some (k, d', part) ∧
      (l.take (lookahead + 1 - off)).find? (HasSmall maxPiece ·) = some d ∧
      part.length = Part.second.sizeIn maxPiece d := by
  fun_induction lookAhead maxPiece lookahead off l with
  | case1 =>
    cases h
    exact .inl ⟨rfl, by simp⟩
  | case2 off d rest hfar =>
    cases h
    have hzero : lookahead + 1 - off = 0 := by omega
    exact .inl ⟨rfl, by simp [hzero]⟩
  | case3 off d rest hfar hsecond ih =>
    have hnot : ¬ HasSmall maxPiece d := by
      rintro (hstatus | ⟨hstatus, -⟩) <;> simp [hstatus, SendStatus.hasSecond] at hsecond
    rw [find?_take_lookahead (by omega), if_neg (by simpa using hnot)]
    exact ih h
  | case4 => cases h
  | case5 off d rest hfar hsecond hwaiting hfirst =>
    obtain ⟨part, hpart, h⟩ := bind_ok h
    cases h
    have hsmall : HasSmall maxPiece d := .inl hfirst
    refine .inr ⟨off, d, d, part, rfl, ?_, ?_⟩
    · rw [find?_take_lookahead (by omega), if_pos (by simpa using hsmall)]
    · unfold subspanFrom at hpart
      split_ifs at hpart
      cases hpart
      simp [Part.sizeIn, Storage.splitFor, hfirst, Storage.size]
  | case6 off d rest hfar hsecond hwaiting hfirst hlong _ =>
    obtain ⟨part, hpart, h⟩ := bind_ok h
    cases h
    have hstatus := SendStatus.eq_unsent hsecond hfirst
    have hsmall : HasSmall maxPiece d := .inr ⟨hstatus, hlong⟩
    refine .inr ⟨off, d, _, part, rfl, ?_, ?_⟩
    · rw [find?_take_lookahead (by omega), if_pos (by simpa using hsmall)]
    · unfold subspanFrom at hpart
      split_ifs at hpart
      cases hpart
      have hfor : d.splitFor maxPiece = maxPiece % 2 ^ 16 := if_pos hstatus
      rw [Part.sizeIn, hfor]
      exact List.length_drop
  | case7 off d rest hfar hsecond hwaiting hfirst hlong ih =>
    have hnot : ¬ HasSmall maxPiece d := by
      rintro (hstatus | ⟨-, hlt⟩)
      · exact hfirst hstatus
      · exact hlong hlt
    rw [find?_take_lookahead (by omega), if_neg (by simpa using hnot)]
    exact ih h

theorem headPiece_length {splitting : Bool} {status : SendStatus} {bits : Nat} {part : List β}
    (hfits : d.Fits splitting) (h : headPiece maxPiece splitting d = .ok (d', status, bits, part)) :
    part.length = (headPart maxPiece splitting d).sizeIn maxPiece d := by
  have hsent : d.status ≠ .sent := by
    intro hsent
    simp [headPiece, hsent] at h
  obtain ⟨e, hpiece, hresplit, hleft, -⟩ := headPiece_spec maxPiece hsent hfits
  cases hpiece.symm.trans h
  have hsize : d'.size = d.size := congrArg List.length hresplit.payload
  have hpos (hpart : headPart maxPiece splitting d ≠ .whole) :
      d'.splitPos = d.splitFor maxPiece := by
    unfold Storage.splitFor
    split_ifs with hunsent
    · refine (headPiece_splitAt h ?_ (hresplit.status.trans hunsent)).1
      cases hcases : headPart maxPiece splitting d <;> simp_all [Part.status]
    · exact hresplit.splitPos hunsent
  cases hcases : headPart maxPiece splitting d with
  | whole => exact hsize
  | first =>
    rw [hcases] at hleft
    rw [Part.data, List.length_take, Part.sizeIn, ← hpos (by simp [hcases])]
    exact Nat.min_eq_left hleft.2
  | second => rw [Part.data, List.length_drop, Part.sizeIn, ← hpos (by simp [hcases]), ← hsize,
      Storage.size]

/-- The piece that `fetch` returns is the one that is picked. -/
theorem choose_pick {preferSmall : Bool} {p : Prepared β} (hinv : Inv q)
    (h : q.choose maxPiece preferSmall = .ok (some p, q')) :
    ∃ d part, q.pick maxPiece preferSmall = some (d, part) ∧
      p.payload.length = part.sizeIn maxPiece d ∧ p.splittingEnabled = q.packetSplitting := by
  unfold choose at h
  cases hhead : q.buf[q.head]? with
  | none => simp [hhead] at h
  | some head =>
    simp only [hhead] at h
    obtain ⟨small, hsmall, h⟩ := bind_ok h
    have hahead : small = none ∧ q.ahead maxPiece preferSmall = none ∨
        ∃ k d d' part, small = some (k, d', part) ∧ q.ahead maxPiece preferSmall = some d ∧
          part.length = Part.second.sizeIn maxPiece d := by
      unfold smallPiece at hsmall
      unfold ahead
      split_ifs at hsmall ⊢
      · exact lookAhead_find hsmall
      · cases hsmall
        exact .inl ⟨rfl, rfl⟩
    obtain ⟨rfl, hnone⟩ | ⟨k, d, d', part, rfl, hsome, hlength⟩ := hahead
    · obtain ⟨⟨d', status, bits, part⟩, hpiece, h⟩ := bind_ok h
      cases h
      refine ⟨head, _, ?_, headPiece_length (hinv.fits head (List.mem_of_getElem? hhead)) hpiece,
        rfl⟩
      simp [pick, hnone, hhead]
    · cases h
      exact ⟨d, .second, by simp [pick, hsome], hlength, rfl⟩

/-- What is known of the datagram that is picked, and of the part. -/
structure Picked (q : DatagramQueue β) (maxPiece : Nat) (d : Storage β) (part : Part) : Prop where
  mem : d ∈ q.buf
  whole : part = .whole → d.status = .unsent ∧ (q.packetSplitting = true → d.size ≤ maxPiece)
  first : part = .first → d.status = .unsent ∨ d.status = .sentSecond
  second : part = .second → d.status = .unsent ∨ d.status = .sentFirst
  splitting : part ≠ .whole → q.packetSplitting = true
  long : part ≠ .whole → d.status = .unsent → maxPiece < d.size

theorem Inv.picked {preferSmall : Bool} {part : Part} (hinv : Inv q)
    (h : q.pick maxPiece preferSmall = some (d, part)) : Picked q maxPiece d part := by
  unfold pick at h
  cases hahead : q.ahead maxPiece preferSmall with
  | some e =>
    simp only [hahead, Option.some.injEq, Prod.mk.injEq] at h
    obtain ⟨rfl, rfl⟩ := h
    obtain ⟨hsmall, hmem, hsplitting⟩ := hasSmall_of_ahead hahead
    refine ⟨List.mem_of_mem_drop hmem, by simp, by simp, fun _ => ?_, fun _ => hsplitting, ?_⟩
    · exact hsmall.symm.imp_left And.left
    · intro _ hunsent
      simpa [HasSmall, hunsent] using hsmall
  | none =>
    simp only [hahead] at h
    obtain ⟨e, he, hpair⟩ := Option.map_eq_some_iff.mp h
    cases hpair
    have hmem : d ∈ q.buf := List.mem_of_getElem? he
    have hwaiting : d ∈ q.buf.drop q.head :=
      List.mem_of_getElem? (i := 0) (by rw [getElem?_waiting]; exact he)
    have hsent := hinv.waiting.ne_sent hwaiting
    have hsplitting := (hinv.fits d hmem).splitting
    unfold headPart
    cases hstatus : d.status with
    | sent => exact absurd hstatus hsent
    | sentFirst | sentSecond =>
      refine ⟨hmem, ?_, ?_, ?_, ?_, ?_⟩ <;> simp_all
    | unsent => refine ⟨hmem, ?_, ?_, ?_, ?_, ?_⟩ <;> split_ifs <;> simp_all

/-- The part of the head is within the maximum if the head can be sent in pieces of that size, or
is split only now. -/
theorem headPart_le_iff {splitting : Bool} (hstatus : d.status ≠ .sent) (hfits : d.Fits splitting) :
    (headPart maxPiece splitting d).sizeIn maxPiece d ≤ maxPiece ↔
      d.Sendable maxPiece splitting ∨ splitting = true ∧ d.status = .unsent := by
  have hmod := Nat.mod_le maxPiece (2 ^ 16)
  have hsplitting := hfits.splitting
  unfold headPart Storage.Sendable
  cases hcases : d.status with
  | sent => exact absurd hcases hstatus
  | sentFirst | sentSecond => simp [Part.sizeIn, Storage.splitFor, hcases]
  | unsent =>
    cases splitting with
    | false => simp [Part.sizeIn]
    | true =>
      by_cases hlong : maxPiece < d.size
      · simpa [hlong, Part.sizeIn, Storage.splitFor, hcases] using hmod
      · simpa [hlong, Part.sizeIn] using Nat.not_lt.mp hlong

/-- The second part is within the maximum if the datagram can be sent in pieces of that size and,
if it is split only now, is not longer than 16 bits of a split position allow. -/
theorem second_le_iff (h : HasSmall maxPiece d) :
    Part.second.sizeIn maxPiece d ≤ maxPiece ↔
      d.Sendable maxPiece true ∧ (d.status = .unsent → d.size ≤ maxPiece + maxPiece % 2 ^ 16) := by
  have hmod := Nat.mod_le maxPiece (2 ^ 16)
  unfold Storage.Sendable
  obtain hfirst | ⟨hunsent, hlong⟩ := h
  · simp [Part.sizeIn, Storage.splitFor, hfirst]
  · simp only [Part.sizeIn, Storage.splitFor, hunsent, if_true]
    grind

/-! ## The head of the queue -/

theorem Chosen.head_sendable_iff {off : Nat} {part : Part} (hc : Chosen q off d d' part)
    {splitting : Bool} :
    (∀ e, (q.buf.set (q.head + off) d')[q.head]? = some e → e.Sendable maxPiece splitting) ↔
      ∀ e, q.buf[q.head]? = some e → e.Sendable maxPiece splitting := by
  have hget := hc.get
  cases off with
  | zero =>
    have hlt : q.head < q.buf.length := (List.getElem?_eq_some_iff.mp hget).1
    have hsend : d'.Sendable maxPiece splitting ↔ d.Sendable maxPiece splitting :=
      hc.resplit.sendable_iff
    simp [List.getElem?_set_self hlt, show q.buf[q.head]? = some d from hget, hsend]
  | succ off => rw [List.getElem?_set_ne (by omega)]

/-- Once the front of the queue has been dropped, the head can be sent unless datagrams that are
gone stand in front of it. -/
theorem Inv.trimmed_head_sendable_iff (h : Inv q) (hsize : ∀ d ∈ q.buf, d.size < 2 ^ 64)
    (maxPiece : Nat) :
    (∀ d, (q.trimmed maxPiece).buf[q.head]? = some d →
        d.Sendable maxPiece q.packetSplitting) ↔
      ¬ (0 < q.head ∧ ∃ d, q.buf[q.head]? = some d ∧ ¬ d.Sendable maxPiece q.packetSplitting) := by
  have hsplit := dropped_append maxPiece q
  by_cases hhead : q.head = 0
  · refine iff_of_true (fun d hd => ?_) fun hpos => by omega
    rw [hhead] at hd
    have hfront : d.unsendable maxPiece q.packetSplitting = false := by
      have hnot := List.head?_dropWhile_not (·.unsendable maxPiece q.packetSplitting) q.buf
      rw [List.head?_eq_getElem?, show (q.buf.dropWhile _)[0]? = some d from hd] at hnot
      simpa using hnot
    have hmem : d ∈ q.buf := by
      rw [← hsplit]
      exact List.mem_append_right _ (List.mem_of_getElem? hd)
    exact Storage.sendable_of_not_unsendable (h.fits d hmem) (hsize d hmem) hfront
  · have hnil : q.dropped maxPiece = [] := by
      by_contra hne
      exact hhead (h.head_eq_zero hne)
    rw [hnil, List.nil_append] at hsplit
    rw [hsplit]
    simp [Nat.pos_of_ne_zero hhead]

end DatagramQueue

namespace QueueRun

open DatagramQueue

variable {s : QueueRun β} {q : DatagramQueue β} {maxPiece : Nat}

/-- What decides, before a call, whether its piece will be within the maximum. A small piece is if
its datagram can be sent in two pieces of that size, where one that is split only now must not be
longer than the 16 bits of a split position allow. A piece of the head always is, unless datagrams
sent as early data stand in front of it: then it is if the head can be sent within the maximum, or
is split only now. -/
def NextWithin (maxPiece : Nat) (preferSmall : Bool) (q : DatagramQueue β) : Prop :=
  match (q.trimmed maxPiece).ahead maxPiece preferSmall with
  | some d => d.Sendable maxPiece true ∧
      (d.status = .unsent → d.size ≤ maxPiece + maxPiece % 2 ^ 16)
  | none => q.head = 0 ∨ ∀ d, q.buf[q.head]? = some d →
      d.Sendable maxPiece q.packetSplitting ∨ q.packetSplitting = true ∧ d.status = .unsent

theorem nextWithin_iff {preferSmall : Bool} {d : Storage β} {part : Part} (h : DatagramQueue.Inv q)
    (hsize : ∀ d ∈ q.buf, d.size < 2 ^ 64)
    (hpick : (q.trimmed maxPiece).pick maxPiece preferSmall = some (d, part)) :
    part.sizeIn maxPiece d ≤ maxPiece ↔ NextWithin maxPiece preferSmall q := by
  unfold NextWithin
  unfold pick at hpick
  cases hahead : (q.trimmed maxPiece).ahead maxPiece preferSmall with
  | some e =>
    simp only [hahead, Option.some.injEq, Prod.mk.injEq] at hpick
    obtain ⟨rfl, rfl⟩ := hpick
    exact second_le_iff (hasSmall_of_ahead hahead).1
  | none =>
    simp only [hahead] at hpick
    obtain ⟨e, he, hpair⟩ := Option.map_eq_some_iff.mp hpick
    cases hpair
    have hmem : d ∈ (q.trimmed maxPiece).buf := List.mem_of_getElem? he
    have hwaiting : d ∈ (q.trimmed maxPiece).buf.drop (q.trimmed maxPiece).head :=
      List.mem_of_getElem? (i := 0) (by rw [getElem?_waiting]; exact he)
    have hinv := h.trimmed maxPiece
    refine (headPart_le_iff (hinv.waiting.ne_sent hwaiting) (hinv.fits d hmem)).trans ?_
    have htrim := h.trimmed_head_sendable_iff hsize maxPiece
    by_cases hhead : q.head = 0
    · exact iff_of_true (.inl (htrim.mpr (by omega) d he)) (.inl hhead)
    · have hbuf : (q.trimmed maxPiece).buf = q.buf := by
        have hnil : q.dropped maxPiece = [] := by
          by_contra hne
          exact hhead (h.head_eq_zero hne)
        simpa [hnil] using dropped_append maxPiece q
      rw [hbuf] at he
      have he : q.buf[q.head]? = some d := he
      simp [hhead, he, DatagramQueue.trimmed]

/-- A piece is within the maximum exactly if `NextWithin` says so of the queue before the call.
After a call the head of the queue can be sent within the maximum, unless it could not before and
datagrams sent as early data stand in front of it. No call faults. -/
theorem fetch_within_max (h : (machine β).Reachable s)
    (hsize : ∀ d ∈ s.queue.buf, d.size < 2 ^ 64) (maxPiece : Nat) (preferSmall : Bool) :
    ∃ out q, s.queue.fetch maxPiece preferSmall = .ok (out, q) ∧
      (∀ p, out = some p →
        (p.payload.length ≤ maxPiece ↔ NextWithin maxPiece preferSmall s.queue)) ∧
      ((∀ d, q.buf[q.head]? = some d → d.Sendable maxPiece q.packetSplitting) ↔
        ¬ (0 < s.queue.head ∧ ∃ d, s.queue.buf[s.queue.head]? = some d ∧
          ¬ d.Sendable maxPiece s.queue.packetSplitting)) := by
  have hinv := inductive_inv.reachable h
  have hbytes : s.queue.total ≤ s.queue.unsentBytes := by
    have := hinv.bytes
    omega
  have htrimmed := hinv.queue.trimmed maxPiece
  have hhead := hinv.queue.trimmed_head_sendable_iff hsize maxPiece
  rw [fetch_eq hinv.queue hbytes]
  obtain ⟨-, hnone⟩ | ⟨off, d, d', part, hc, hsome⟩ := choose_spec htrimmed maxPiece preferSmall
  · exact ⟨none, _, hnone, by simp, hhead⟩
  · refine ⟨_, _, hsome, ?_, hc.head_sendable_iff.trans hhead⟩
    rintro p ⟨⟩
    obtain ⟨e, part, hpick, hlength, -⟩ := choose_pick htrimmed hsome
    rw [hlength]
    exact nextWithin_iff hinv.queue hsize hpick

/-- With a maximum of two bytes: three bytes of early data behind a datagram that is already sent,
without splitting; and four bytes of a datagram that is not the head, with splitting. -/
theorem fetch_exceeds_max :
    (∃ s : QueueRun Nat, (machine Nat).Reachable s ∧
      (s.queue.fetch 2 false).toOption.map (·.1.map (·.payload)) = some (some [2, 3, 4])) ∧
    ∃ s : QueueRun Nat, (machine Nat).Reachable s ∧
      (s.queue.fetch 2 true).toOption.map (·.1.map (·.payload)) = some (some [4, 5, 6, 7]) := by
  constructor
  · have hinit : (machine Nat).Reachable
        { datagrams := { sendBuffer := { packetSplitting := false } } } :=
      .initial ⟨false, 2000000, rfl⟩
    have hrun : ((machine Nat).run { datagrams := { sendBuffer := { packetSplitting := false } } }
        [.earlyBegin, .send [1], .send [2, 3, 4], .fetch 3 false, .confirm]).map (fun s =>
          (s.queue.fetch 2 false).toOption.map (·.1.map (·.payload))) =
        some (some (some [2, 3, 4])) := by decide
    obtain ⟨s, hs, hview⟩ := Option.map_eq_some_iff.mp hrun
    exact ⟨s, hinit.run hs, hview⟩
  · have hrun : ((machine Nat).run (fresh Nat) [.send [1], .send [2, 3, 4, 5, 6, 7]]).map (fun s =>
        (s.queue.fetch 2 true).toOption.map (·.1.map (·.payload))) =
        some (some (some [4, 5, 6, 7])) := by decide
    obtain ⟨s, hs, hview⟩ := Option.map_eq_some_iff.mp hrun
    exact ⟨s, reachable_fresh.run hs, hview⟩

/-- A datagram accepted under a larger maximum is gone from the front of the queue. -/
theorem fetch_within_max_drops_front :
    ∃ (s : QueueRun Nat) (out : Option (Prepared Nat)) (q : DatagramQueue Nat),
      (machine Nat).Reachable s ∧ s.queue.fetch 2 false = .ok (out, q) ∧
      s.queue.buf.map (·.payload) = [[1, 2, 3, 4, 5], [6]] ∧ out.map (·.payload) = some [6] ∧
      ∀ d, q.buf[q.head]? = some d → d.Sendable 2 q.packetSplitting := by
  have hrun : ((machine Nat).run (fresh Nat) [.send [1, 2, 3, 4, 5], .send [6]]).map (fun s =>
      (s.queue.buf.map (·.payload), s.queue.head,
        (s.queue.fetch 2 false).toOption.map (·.1.map (·.payload)))) =
      some ([[1, 2, 3, 4, 5], [6]], 0, some (some [6])) := by decide
  obtain ⟨s, hs, hview⟩ := Option.map_eq_some_iff.mp hrun
  simp only [Prod.mk.injEq] at hview
  obtain ⟨hbuf, hhead, hpayload⟩ := hview
  have hsize : ∀ d ∈ s.queue.buf, d.size < 2 ^ 64 := by
    intro d hd
    have hmem : d.payload ∈ [[1, 2, 3, 4, 5], [6]] := hbuf ▸ List.mem_map_of_mem hd
    have hlen : d.payload.length ≤ 5 := by
      rcases List.mem_cons.mp hmem with heq | hmem
      · simp [heq]
      · simp [List.mem_singleton.mp hmem]
    exact Nat.lt_of_le_of_lt hlen (by decide)
  have hreach := reachable_fresh.run hs
  obtain ⟨out, q, hfetch, -, hsend⟩ := fetch_within_max hreach hsize 2 false
  refine ⟨s, out, q, hreach, hfetch, hbuf, ?_, hsend.mpr (by simp [hhead])⟩
  simpa [hfetch, Except.toOption] using hpayload

end QueueRun

end Libquic
