import Libquic.Datagram.RotatingSpec

/-!
# Which halves meet in the reassembly buffer

The buffer sees a counter of 14 bits. Here the datagrams are numbered without wrapping, and
`Tracks` ties the slots to these numbers: the slots hold the halves still waiting in the newest
block and in the block before it.
-/
namespace Libquic

open Lib

/-- The id of the datagram with number `n`; `bits` says which part of it is sent. -/
def dgid (n bits : Nat) : Nat := (n % 2 ^ 14) <<< 2 ||| bits

theorem dgid_eq {bits : Nat} (n : Nat) (h : bits < 4) : dgid n bits = n % 2 ^ 14 * 4 + bits := by
  have hbits : bits < 2 ^ 2 := h
  rw [dgid, Nat.shiftLeft_eq, Nat.mul_comm, ← Nat.two_pow_add_eq_or_of_lt hbits, Nat.mul_comm]

theorem dgid_lt {bits : Nat} (n : Nat) (h : bits < 4) : dgid n bits < 2 ^ 16 := by
  rw [dgid_eq n h]
  omega

theorem dgid_shiftRight {bits : Nat} (n : Nat) (h : bits < 4) : dgid n bits >>> 2 = n % 2 ^ 14 := by
  rw [dgid_eq n h, Nat.shiftRight_eq_div_pow]
  omega

theorem dgid_and {bits : Nat} (n : Nat) (h : bits < 4) : dgid n bits &&& 0b11 = bits := by
  rw [dgid_eq n h, show (0b11 : Nat) = 2 ^ 2 - 1 from rfl, Nat.and_two_pow_sub_one_eq_mod]
  omega

/-- The bits for a half of a datagram. -/
def splitBits (first : Bool) : Nat := if first then dgidSplitFirst else dgidSplitSecond

theorem splitBits_lt (first : Bool) : splitBits first < 4 := by
  cases first <;> decide

theorem splitBits_beq (first : Bool) : (splitBits first == dgidSplitFirst) = first := by
  cases first <;> rfl

namespace DatagramOptions

variable (o : DatagramOptions) {m n k : Nat}

/-! ## Numbers and blocks -/

theorem counter_block (n : Nat) : n % 2 ^ 14 / o.blockSize = n / o.blockSize % o.nblocks := by
  rw [show 2 ^ 14 = o.blockSize * o.nblocks from o.blockSize_mul_nblocks.symm,
    Nat.mod_mul_right_div_self]

theorem two_dvd_nblocks : 2 ∣ o.nblocks := Nat.dvd_trans (by decide : 2 ∣ 4) o.four_dvd_nblocks

theorem counter_slot (n : Nat) : n % 2 ^ 14 % o.bufsize = n % o.bufsize := by
  refine Nat.mod_mod_of_dvd n ?_
  rw [show 2 ^ 14 = o.blockSize * o.nblocks from o.blockSize_mul_nblocks.symm, o.bufsize_eq]
  exact Nat.mul_dvd_mul_left _ o.two_dvd_nblocks

theorem slot_half (n : Nat) : n % o.bufsize / o.blockSize = n / o.blockSize % 2 := by
  rw [o.bufsize_eq, Nat.mod_mul_right_div_self]

/-- Two neighbouring blocks use different slots. -/
theorem slot_injective (hslot : k % o.bufsize = n % o.bufsize)
    (hle : n / o.blockSize ≤ k / o.blockSize + 1) (hge : k / o.blockSize ≤ n / o.blockSize + 1) :
    k = n := by
  have hhalf : k / o.blockSize % 2 = n / o.blockSize % 2 := by
    rw [← slot_half, ← slot_half, hslot]
  have hmod : k % o.blockSize = n % o.blockSize := by
    have hdvd : o.blockSize ∣ o.bufsize := ⟨2, o.bufsize_eq⟩
    rw [← Nat.mod_mod_of_dvd k hdvd, hslot, Nat.mod_mod_of_dvd n hdvd]
  have hdiv : k / o.blockSize = n / o.blockSize := by
    generalize k / o.blockSize = a at *
    generalize n / o.blockSize = b at *
    omega
  rw [← Nat.div_add_mod k o.blockSize, ← Nat.div_add_mod n o.blockSize, hdiv, hmod]

theorem reorderBlocks_le : o.reorderBlocks * 2 ≤ o.nblocks := by
  have hle : o.blockSize * (o.reorderBlocks * 2) ≤ o.blockSize * o.nblocks := by
    have := o.reorderRange_le
    rw [o.blockSize_mul_nblocks]
    rw [reorderRange] at this
    grind
  exact Nat.le_of_mul_le_mul_left hle (by have := o.blockSize_bounds; omega)

/-- Where a datagram may come from when `m` is the newest one. -/
structure InWindow (m n : Nat) : Prop where
  behind : n ≤ m → m - n < o.reorderRange - o.blockSize
  ahead : m < n → n - m < 16384 - o.reorderRange

/-- The same in blocks. -/
theorem InWindow.blocks (h : o.InWindow m n) :
    (n / o.blockSize ≤ m / o.blockSize →
      m / o.blockSize < n / o.blockSize + o.reorderBlocks) ∧
    (m / o.blockSize < n / o.blockSize →
      n / o.blockSize + o.reorderBlocks ≤ m / o.blockSize + o.nblocks) := by
  have hpos : 0 < o.blockSize := by have := o.blockSize_bounds; omega
  have hrange : o.reorderRange = o.reorderBlocks * o.blockSize := rfl
  have hge := o.reorderBlocks_ge
  have hle := o.reorderBlocks_le
  refine ⟨fun _ => ?_, fun _ => ?_⟩
  · by_cases hnm : n ≤ m
    · have hbehind := h.behind hnm
      have hm : m ≤ n + (o.reorderBlocks - 1) * o.blockSize := by
        rw [Nat.sub_mul]
        omega
      have := Nat.div_le_div_right (c := o.blockSize) hm
      rw [Nat.add_mul_div_right _ _ hpos] at this
      omega
    · have := Nat.div_le_div_right (c := o.blockSize) (Nat.le_of_not_le hnm)
      omega
  · have hmn : m < n := by
      by_contra hnot
      have := Nat.div_le_div_right (c := o.blockSize) (Nat.le_of_not_lt hnot)
      omega
    have hahead := h.ahead hmn
    have hn : n ≤ m + (o.nblocks - o.reorderBlocks) * o.blockSize := by
      have := o.blockSize_mul_nblocks
      rw [Nat.sub_mul, Nat.mul_comm o.nblocks]
      omega
    have := Nat.div_le_div_right (c := o.blockSize) hn
    rw [Nat.add_mul_div_right _ _ hpos] at this
    omega

theorem wrap_sub (a b : Nat) :
    o.wrap (((a % o.nblocks : Nat) : Int) - ((b % o.nblocks : Nat) : Int)) =
      o.wrap ((a : Int) - b) := by
  rw [wrap, wrap, Int.natCast_mod, Int.natCast_mod, ← Int.sub_emod]

theorem wrap_nonneg (blocks : Int) : 0 ≤ o.wrap blocks :=
  Int.emod_nonneg _ (by have := o.nblocks_pos; omega)

theorem wrap_mod_two (blocks : Int) : o.wrap blocks % 2 = blocks % 2 :=
  Int.emod_emod_of_dvd blocks (Int.natCast_dvd_natCast.mpr o.two_dvd_nblocks)

/-- The half tells the two held blocks apart. -/
theorem held_injective {newest : Int} {a b : Nat} (ha : o.wrap (newest - a) ≤ 1)
    (hb : o.wrap (newest - b) ≤ 1) (hhalf : a % 2 = b % 2) (halt : a < o.nblocks)
    (hblt : b < o.nblocks) : a = b := by
  have hparity := o.wrap_mod_two (newest - a)
  have hparity' := o.wrap_mod_two (newest - b)
  have hnonneg := o.wrap_nonneg (newest - a)
  have hnonneg' := o.wrap_nonneg (newest - b)
  have heq : (newest - a) % o.nblocks = (newest - b) % o.nblocks := by
    rw [wrap] at *
    omega
  have hdvd : (o.nblocks : Int) ∣ (b : Int) - a := by
    have := Int.dvd_of_emod_eq_zero (Int.emod_eq_emod_iff_emod_sub_eq_zero.mp heq)
    simpa using this
  have hzero : (b : Int) - a = 0 :=
    Int.eq_zero_of_abs_lt_dvd hdvd (abs_lt.mpr ⟨by omega, by omega⟩)
  omega

theorem wrap_of_le {a b : Nat} (hle : b ≤ a) (hlt : a < b + o.nblocks) :
    o.wrap ((a : Int) - b) = (a - b : Nat) := by
  rw [wrap, Int.emod_eq_of_lt] <;> omega

theorem wrap_of_lt {a b : Nat} (hlt : a < b) (hle : b ≤ a + o.nblocks) :
    o.wrap ((a : Int) - b) = (a + o.nblocks - b : Nat) := by
  rw [wrap, ← Int.add_emod_right, Int.emod_eq_of_lt] <;> omega

end DatagramOptions

namespace RotatingBuffer

variable {β : Type} {o : DatagramOptions} {x y z : RotatingBuffer β} {n : Nat}

/-! ## Waiting halves -/

/-- The half that waits for the other one. -/
def pending (halves : Bool → Option (List β)) : Option (Bool × List β) :=
  match halves true, halves false with
  | some data, none => some (true, data)
  | none, some data => some (false, data)
  | _, _ => none

/-- The payload, from a half and the other one. -/
def join (first : Bool) (data other : List β) : List β :=
  if first then data ++ other else other ++ data

theorem meet_pending {halves : Bool → Option (List β)} {first : Bool} (h : halves first = none)
    (data : List β) :
    meet first data (pending halves) =
      ((halves (!first)).map (join first data),
        pending (Function.update halves first (some data))) := by
  cases first with
  | true => cases hother : halves false <;> simp [pending, meet, join, h, hother]
  | false => cases hother : halves true <;> simp [pending, meet, join, h, hother]

/-- A half of datagram `n` has arrived. -/
def record (arrived : Nat → Bool → Option (List β)) (n : Nat) (first : Bool) (data : List β) :
    Nat → Bool → Option (List β) :=
  Function.update arrived n (Function.update (arrived n) first (some data))

/-- The largest number seen, after datagram `n`. -/
def newer (seen : Option Nat) (n : Nat) : Nat := seen.elim n (max n)

/-- The slots hold what has arrived in the newest block and the one before. -/
structure Tracks (o : DatagramOptions) (x : RotatingBuffer β) (seen : Option Nat)
    (arrived : Nat → Bool → Option (List β)) : Prop where
  newest : x.newest = seen.map fun m => ((m / o.blockSize % o.nblocks : Nat) : Int)
  unseen : ∀ n first, (∀ m ∈ seen, m < n) → arrived n first = none
  cells : ∀ n, (∀ m ∈ seen, n / o.blockSize ≤ m / o.blockSize ∧
    m / o.blockSize ≤ n / o.blockSize + 1) → x.cell (n % o.bufsize) = pending (arrived n)

variable {seen : Option Nat} {arrived : Nat → Bool → Option (List β)}

theorem tracks_empty : Tracks o ({} : RotatingBuffer β) none fun _ _ => none :=
  ⟨rfl, fun _ _ _ => rfl, fun _ _ => by simp [cell, pending]⟩

/-- Datagrams of later blocks have not been seen. -/
theorem Tracks.pending_eq_none {m : Nat} (h : Tracks o x (some m) arrived)
    (hlt : m / o.blockSize < n / o.blockSize) : pending (arrived n) = none := by
  have hmn : m < n := by
    by_contra hnot
    have := Nat.div_le_div_right (c := o.blockSize) (Nat.le_of_not_lt hnot)
    omega
  have hnone (first : Bool) : arrived n first = none :=
    h.unseen n first (by rintro _ ⟨rfl⟩; exact hmn)
  simp [pending, hnone]

theorem newer_div (m n : Nat) :
    newer (some m) n / o.blockSize = max (n / o.blockSize) (m / o.blockSize) := by
  change max n m / o.blockSize = _
  rcases Nat.le_total n m with h | h
  · have := Nat.div_le_div_right (c := o.blockSize) h
    rw [max_eq_right h, max_eq_right this]
  · have := Nat.div_le_div_right (c := o.blockSize) h
    rw [max_eq_left h, max_eq_left this]

/-- How far behind the newest block another one is, as `advance` computes it. -/
theorem behind_eq {m : Nat} (hwindow : o.InWindow m n) :
    o.wrap (((m / o.blockSize % o.nblocks : Nat) : Int) - ((n / o.blockSize % o.nblocks : Nat) : Int)) =
      if n / o.blockSize ≤ m / o.blockSize then ((m / o.blockSize - n / o.blockSize : Nat) : Int)
      else ((m / o.blockSize + o.nblocks - n / o.blockSize : Nat) : Int) := by
  obtain ⟨hbehind, hahead⟩ := hwindow.blocks
  have hle := o.reorderBlocks_le
  have hpos := o.nblocks_pos
  rw [o.wrap_sub]
  split_ifs with hblock
  · exact o.wrap_of_le hblock (by have := hbehind hblock; omega)
  · exact o.wrap_of_lt (by omega) (by have := hahead (by omega); omega)

/-- What is newer than all datagrams seen has not arrived, also when another one is seen. -/
theorem Tracks.unseen_newer (h : Tracks o x seen arrived) (n k : Nat) (first : Bool)
    (hk : ∀ m ∈ some (newer seen n), m < k) : arrived k first = none := by
  refine h.unseen k first fun m hm => ?_
  have := hk _ rfl
  rw [Option.mem_def] at hm
  simp only [newer, hm, Option.elim_some] at this
  omega

/-- While the newest block stays as it is, the slots do too. -/
theorem Tracks.stay {m : Nat} (h : Tracks o x (some m) arrived)
    (hle : n / o.blockSize ≤ m / o.blockSize) : Tracks o x (some (newer (some m) n)) arrived := by
  have hnewer := newer_div (o := o) m n
  rw [max_eq_right hle] at hnewer
  refine ⟨by rw [h.newest, Option.map_some, Option.map_some, hnewer], h.unseen_newer n,
    fun k hk => h.cells k ?_⟩
  simpa [hnewer] using hk

/-- The newest block moves on, and the slots of blocks that were not there yet are emptied. -/
theorem Tracks.jump {m : Nat} (h : Tracks o x (some m) arrived) (hwindow : o.InWindow m n)
    (hlt : m / o.blockSize < n / o.blockSize)
    (hy : y.newest = some ((n / o.blockSize % o.nblocks : Nat) : Int))
    (hcell : ∀ s, y.cell s =
      if s / o.blockSize = (((n / o.blockSize % o.nblocks : Nat) : Int) % 2).toNat ∨
        1 < o.wrap (((n / o.blockSize % o.nblocks : Nat) : Int) -
          ((m / o.blockSize % o.nblocks : Nat) : Int)) then none
      else x.cell s) : Tracks o y (some (newer (some m) n)) arrived := by
  have hnewer := newer_div (o := o) m n
  rw [max_eq_left hlt.le] at hnewer
  refine ⟨by rw [hy, Option.map_some, hnewer], h.unseen_newer n, fun k hk => ?_⟩
  obtain ⟨hkle, hkge⟩ := hk _ rfl
  rw [hnewer] at hkle hkge
  have hskip : o.wrap (((n / o.blockSize % o.nblocks : Nat) : Int) -
      ((m / o.blockSize % o.nblocks : Nat) : Int)) = (n / o.blockSize - m / o.blockSize : Nat) := by
    have hge := o.reorderBlocks_ge
    have hahead := hwindow.blocks.2 hlt
    rw [o.wrap_sub]
    exact o.wrap_of_le hlt.le (by omega)
  have hparity : (((n / o.blockSize % o.nblocks : Nat) : Int) % 2).toNat = n / o.blockSize % 2 := by
    have := Nat.mod_mod_of_dvd (n / o.blockSize) o.two_dvd_nblocks
    omega
  rw [hcell, hskip, hparity, o.slot_half]
  by_cases hlater : m / o.blockSize < k / o.blockSize
  · rw [h.pending_eq_none hlater, if_pos]
    generalize k / o.blockSize = a at *
    generalize n / o.blockSize = b at *
    omega
  · rw [if_neg]
    · refine h.cells k ?_
      rintro _ ⟨rfl⟩
      exact ⟨by omega, by omega⟩
    · generalize k / o.blockSize = a at *
      generalize n / o.blockSize = b at *
      omega

/-- Moving forward: the slots follow, and a datagram is late if its block is not held. -/
theorem Tracks.advances {fresh : Bool} (h : Tracks o x seen arrived)
    (hwindow : ∀ m ∈ seen, o.InWindow m n)
    (hadv : Advances o x (n % 2 ^ 14 / o.blockSize : Nat) fresh y) :
    Tracks o y (some (newer seen n)) arrived ∧
      (fresh = true ↔ newer seen n / o.blockSize ≤ n / o.blockSize + 1) := by
  rw [o.counter_block] at hadv
  cases seen with
  | none =>
    cases hadv with
    | start _ => exact ⟨⟨rfl, h.unseen_newer n, fun k _ => h.cells k (by simp)⟩, by simp [newer]⟩
    | held hsome _ => simp [h.newest] at hsome
    | late hsome _ _ => simp [h.newest] at hsome
    | jump hsome _ _ _ _ => simp [h.newest] at hsome
  | some m =>
    have hx : x.newest = some ((m / o.blockSize % o.nblocks : Nat) : Int) := h.newest
    have hblocks := (hwindow m rfl).blocks
    have hbehind := behind_eq (hwindow m rfl)
    have hnewer := newer_div (o := o) m n
    have hge := o.reorderBlocks_ge
    cases hadv with
    | start hnone => simp [hx] at hnone
    | held hsome hwrap =>
      obtain rfl := Option.some.inj (hx.symm.trans hsome)
      rw [hbehind] at hwrap
      have hle : n / o.blockSize ≤ m / o.blockSize := by grind
      refine ⟨h.stay hle, ?_⟩
      grind
    | late hsome hwrap hlate =>
      obtain rfl := Option.some.inj (hx.symm.trans hsome)
      rw [hbehind] at hwrap hlate
      have hle : n / o.blockSize ≤ m / o.blockSize := by grind
      refine ⟨h.stay hle, ?_⟩
      grind
    | jump hsome hwrap hfar hy hcell =>
      obtain rfl := Option.some.inj (hx.symm.trans hsome)
      rw [hbehind] at hfar
      have hlt : m / o.blockSize < n / o.blockSize := by grind
      rw [max_eq_left hlt.le] at hnewer
      exact ⟨h.jump (hwindow m rfl) hlt hy hcell, by simp [hnewer]⟩

/-- A half arrives: what comes out, and what is held afterwards. -/
theorem Tracks.receives {first : Bool} {data : List β} {out : Option (List β)}
    (h : Tracks o x seen arrived) (hwindow : ∀ m ∈ seen, o.InWindow m n)
    (hnew : arrived n first = none) (hrec : Receives o x (n % 2 ^ 14) first data out z) :
    Tracks o z (some (newer seen n)) (record arrived n first data) ∧
      out = if newer seen n / o.blockSize ≤ n / o.blockSize + 1 then
        (arrived n (!first)).map (join first data) else none := by
  have hnewer : n ≤ newer seen n := by cases seen <;> simp [newer]
  have hunseen {y : RotatingBuffer β} (hy : Tracks o y (some (newer seen n)) arrived) (k : Nat)
      (first' : Bool) (hk : ∀ m ∈ some (newer seen n), m < k) :
      record arrived n first data k first' = none := by
    have hne : k ≠ n := by
      have := hk _ rfl
      omega
    simpa [record, hne] using hy.unseen k first' hk
  cases hrec with
  | late hadv =>
    obtain ⟨hy, hfresh⟩ := h.advances hwindow hadv
    have hlate : ¬ newer seen n / o.blockSize ≤ n / o.blockSize + 1 := by simpa using hfresh
    refine ⟨⟨hy.newest, hunseen hy, fun k hk => ?_⟩, by rw [if_neg hlate]⟩
    have hne : k ≠ n := by
      rintro rfl
      exact hlate (hk _ rfl).2
    simpa [record, hne] using hy.cells k hk
  | @meets y _ hadv hnewest hcell =>
    obtain ⟨hy, hfresh⟩ := h.advances hwindow hadv
    have hheld : newer seen n / o.blockSize ≤ n / o.blockSize + 1 := hfresh.mp rfl
    have hn : y.cell (n % o.bufsize) = pending (arrived n) := by
      refine hy.cells n ?_
      rintro _ ⟨rfl⟩
      exact ⟨Nat.div_le_div_right hnewer, hheld⟩
    rw [o.counter_slot, hn, meet_pending hnew] at hcell ⊢
    refine ⟨⟨hnewest.trans hy.newest, hunseen hy, fun k hk => ?_⟩, by rw [if_pos hheld]⟩
    rw [hcell]
    by_cases hkn : k = n
    · simp [hkn, record]
    · have hslot : k % o.bufsize ≠ n % o.bufsize := fun hslot => hkn (by
        have hk := hk _ rfl
        have := Nat.div_le_div_right (c := o.blockSize) hnewer
        exact o.slot_injective hslot (by omega) (by omega))
      simpa [record, hkn, hslot] using hy.cells k hk

theorem Tracks.observe (hwf : Wf o x) (h : Tracks o x seen arrived)
    (hwindow : ∀ m ∈ seen, o.InWindow m n) :
    ∃ z, x.observe o (dgid n 0) = .ok z ∧ Wf o z ∧ Tracks o z (some (newer seen n)) arrived := by
  have hcounter : n % 2 ^ 14 < 2 ^ 14 := Nat.mod_lt _ (by decide)
  obtain ⟨fresh, z, hz, hwf', hadv⟩ := advance_spec hwf hcounter
  refine ⟨z, ?_, hwf', (h.advances hwindow hadv).1⟩
  simp only [RotatingBuffer.observe, dgid_shiftRight n (by decide : 0 < 4), hz, ok_bind]

/-- What `receive` returns for a half: the datagram, if the other half is still held. -/
def completed (o : DatagramOptions) (seen : Option Nat) (arrived : Nat → Bool → Option (List β))
    (n : Nat) (first : Bool) (data : List β) : Option (List β) :=
  if newer seen n / o.blockSize ≤ n / o.blockSize + 1 then
    (arrived n (!first)).map (join first data)
  else none

theorem Tracks.receive {first : Bool} (hwf : Wf o x) (h : Tracks o x seen arrived)
    (hwindow : ∀ m ∈ seen, o.InWindow m n) (hnew : arrived n first = none) (data : List β) :
    ∃ z, x.receive o data (dgid n (splitBits first)) =
        .ok (completed o seen arrived n first data, z) ∧ Wf o z ∧
      Tracks o z (some (newer seen n)) (record arrived n first data) := by
  have hbits := splitBits_lt first
  obtain ⟨out, z, hz, hwf', hrec⟩ := receive_spec hwf (dgid_lt n hbits) data
  rw [dgid_shiftRight n hbits, dgid_and n hbits, splitBits_beq] at hrec
  obtain ⟨htracks, rfl⟩ := h.receives hwindow hnew hrec
  exact ⟨z, hz, hwf', htracks⟩

end RotatingBuffer

/-! ## Arrivals in any order -/

open RotatingBuffer

/-- The smallest buffer, with the smallest reorder limit. -/
def smallest : DatagramOptions where
  bufsize := 64
  reorderLimit := 64
  hasSingleBit := ⟨6, rfl⟩
  bufsize_ge := by decide
  bufsize_le := by decide
  reorderLimit_ge := by decide
  reorderLimit_le := by decide

/-- A datagram, or a half of one, arrives. -/
inductive Arrival (β : Type) where
  | whole (n : Nat)
  | half (n : Nat) (first : Bool) (data : List β)
  deriving DecidableEq, Repr

def Arrival.number {β : Type} : Arrival β → Nat
  | .whole n => n
  | .half n _ _ => n

/-- A buffer with what has arrived so far, and what it has returned for which datagram. -/
structure Reassembly (β : Type) where
  buf : RotatingBuffer β := {}
  /-- The largest number that has arrived. -/
  seen : Option Nat := none
  arrived : Nat → Bool → Option (List β) := fun _ _ => none
  returned : List (Nat × List β) := []

namespace Reassembly

variable {β : Type} {o : DatagramOptions}

/-- Each half arrives at most once, and nothing arrives from outside the window. -/
def Enabled (o : DatagramOptions) (s : Reassembly β) (a : Arrival β) : Prop :=
  (∀ m ∈ s.seen, o.InWindow m a.number) ∧
    match a with
    | .whole _ => True
    | .half n first _ => s.arrived n first = none

def step (o : DatagramOptions) (s : Reassembly β) : Arrival β → Except Fault (Reassembly β)
  | .whole n => do
    let buf ← s.buf.observe o (dgid n 0)
    .ok { s with buf := buf, seen := some (newer s.seen n) }
  | .half n first data => do
    let result ← s.buf.receive o data (dgid n (splitBits first))
    .ok { buf := result.2
          seen := some (newer s.seen n)
          arrived := record s.arrived n first data
          returned := s.returned ++ result.1.toList.map (n, ·) }

def machine (β : Type) (o : DatagramOptions) : Machine (Reassembly β) (Arrival β) Fault where
  initial s := s = {}
  enabled := Enabled o
  step := step o

/-- Everything returned is put together from the halves of its datagram. -/
structure Inv (o : DatagramOptions) (s : Reassembly β) : Prop where
  wf : Wf o s.buf
  tracks : Tracks o s.buf s.seen s.arrived
  returned : ∀ n payload, (n, payload) ∈ s.returned → ∃ head tail,
    s.arrived n true = some head ∧ s.arrived n false = some tail ∧ payload = head ++ tail
  once : (s.returned.map Prod.fst).Nodup

theorem inv_initial : Inv o ({} : Reassembly β) where
  wf := wf_empty
  tracks := tracks_empty
  returned := by simp
  once := by simp

/-- A half does not change the halves that arrived before it. -/
theorem record_of_some {arrived : Nat → Bool → Option (List β)} {n k : Nat} {first first' : Bool}
    {data' : List β} (hnew : arrived n first = none) (h : arrived k first' = some data')
    (data : List β) :
    record arrived n first data k first' = some data' := by
  have hne : k ≠ n ∨ first' ≠ first := by
    by_contra hnot
    obtain ⟨rfl, rfl⟩ : k = n ∧ first' = first := by simpa using hnot
    simp [hnew] at h
  rcases hne with hne | hne
  · simpa [record, hne] using h
  · by_cases hkn : k = n
    · subst hkn
      simpa [record, hne] using h
    · simpa [record, hkn] using h

theorem record_self (arrived : Nat → Bool → Option (List β)) (n : Nat) (first : Bool)
    (data : List β) : record arrived n first data n first = some data := by
  simp [record]

/-- What a half completes is the first half and then the second. -/
theorem completed_halves {seen : Option Nat} {arrived : Nat → Bool → Option (List β)} {n : Nat}
    {first : Bool} {data payload : List β} (hnew : arrived n first = none)
    (h : completed o seen arrived n first data = some payload) :
    ∃ head tail, record arrived n first data n true = some head ∧
      record arrived n first data n false = some tail ∧ payload = head ++ tail := by
  unfold completed at h
  split_ifs at h
  obtain ⟨other, hother, rfl⟩ := Option.map_eq_some_iff.mp h
  have hself := record_self arrived n first data
  have hkept := record_of_some hnew hother data
  cases first with
  | true => exact ⟨data, other, hself, hkept, rfl⟩
  | false => exact ⟨other, data, hkept, hself, rfl⟩

theorem Inv.whole {s : Reassembly β} {n : Nat} (h : Inv o s) (he : Enabled o s (.whole n)) :
    ∃ buf, step o s (.whole n) = .ok { s with buf := buf, seen := some (newer s.seen n) } ∧
      Wf o buf ∧ Tracks o buf (some (newer s.seen n)) s.arrived := by
  obtain ⟨buf, hbuf, hkept⟩ := h.tracks.observe (n := n) h.wf he.1
  exact ⟨buf, by rw [step, hbuf, ok_bind], hkept⟩

theorem Inv.half {s : Reassembly β} {n : Nat} {first : Bool} {data : List β} (h : Inv o s)
    (he : Enabled o s (.half n first data)) :
    ∃ buf, step o s (.half n first data) = .ok {
        buf := buf
        seen := some (newer s.seen n)
        arrived := record s.arrived n first data
        returned := s.returned ++
          (completed o s.seen s.arrived n first data).toList.map (n, ·) } ∧
      Wf o buf ∧ Tracks o buf (some (newer s.seen n)) (record s.arrived n first data) := by
  obtain ⟨buf, hbuf, hkept⟩ := h.tracks.receive (n := n) h.wf he.1 he.2 data
  exact ⟨buf, by rw [step, hbuf, ok_bind], hkept⟩

theorem inv_step {s : Reassembly β} {a : Arrival β} (h : Inv o s) (he : Enabled o s a) :
    ∃ t, step o s a = .ok t ∧ Inv o t := by
  cases a with
  | whole n =>
    obtain ⟨buf, hstep, hwf, htracks⟩ := h.whole he
    exact ⟨_, hstep, hwf, htracks, h.returned, h.once⟩
  | half n first data =>
    obtain ⟨buf, hstep, hwf, htracks⟩ := h.half he
    have hnew : s.arrived n first = none := he.2
    refine ⟨_, hstep, hwf, htracks, ?_, ?_⟩
    · intro k payload hmem
      rcases List.mem_append.mp hmem with hmem | hmem
      · obtain ⟨head, tail, hhead, htail, rfl⟩ := h.returned k payload hmem
        exact ⟨head, tail, record_of_some hnew hhead data, record_of_some hnew htail data, rfl⟩
      · obtain ⟨payload', hout, heq⟩ := List.mem_map.mp hmem
        obtain ⟨rfl, rfl⟩ := Prod.mk.inj heq
        exact completed_halves hnew (Option.mem_toList.mp hout)
    · -- had it been returned before, both of its halves would have arrived
      have hfresh : n ∉ s.returned.map Prod.fst := by
        intro hmem
        obtain ⟨⟨k, payload⟩, hpayload, rfl⟩ := List.mem_map.mp hmem
        obtain ⟨head, tail, hhead, htail, -⟩ := h.returned k payload hpayload
        cases first <;> simp_all
      cases completed o s.seen s.arrived n first data with
      | none => simpa using h.once
      | some payload =>
        simp only [Option.toList_some, List.map_append, List.map_cons, List.map_nil]
        exact List.nodup_append_comm.mp (List.nodup_cons.mpr ⟨hfresh, h.once⟩)

theorem inductive_inv : (machine β o).Inductive (Inv o) where
  initial := by
    rintro _ rfl
    exact inv_initial
  step _ _ := inv_step

/-- Every datagram returned is made of its own two halves, none is returned twice, and the later
half of a datagram that is still close enough brings it back. -/
theorem reassembles {s : Reassembly β} (h : (machine β o).Reachable s) :
    (∀ n payload, (n, payload) ∈ s.returned → ∃ head tail,
      s.arrived n true = some head ∧ s.arrived n false = some tail ∧ payload = head ++ tail) ∧
    (s.returned.map Prod.fst).Nodup ∧
    ∀ a, Enabled o s a → ∃ t, step o s a = .ok t ∧
      ∀ n first data other, a = .half n first data → s.arrived n (!first) = some other →
        newer s.seen n - n ≤ o.blockSize →
        t.returned = s.returned ++ [(n, join first data other)] := by
  have hinv := inductive_inv.reachable h
  refine ⟨hinv.returned, hinv.once, fun a he => ?_⟩
  obtain ⟨t, ht, -⟩ := inv_step hinv he
  refine ⟨t, ht, ?_⟩
  rintro n first data other rfl hother hclose
  obtain ⟨buf, hstep, -⟩ := hinv.half he
  obtain rfl := Except.ok.inj (hstep.symm.trans ht)
  have hpos : 0 < o.blockSize := by have := o.blockSize_bounds; omega
  have hheld : newer s.seen n / o.blockSize ≤ n / o.blockSize + 1 := by
    have hle : newer s.seen n ≤ n + o.blockSize := by omega
    exact (Nat.div_le_div_right hle).trans (Nat.add_div_right n hpos).le
  simp [completed, hheld, hother]

theorem reassembles_second_half_first :
    ∃ s t : Reassembly Nat, (machine Nat smallest).Reachable s ∧ s.arrived 7 false = some [2] ∧
      Enabled smallest s (.half 7 true [1]) ∧ step smallest s (.half 7 true [1]) = .ok t ∧
      t.returned = [(7, [1, 2])] := by
  have hfirst : Enabled smallest ({} : Reassembly Nat) (.half 7 false [2]) := ⟨by simp, rfl⟩
  obtain ⟨buf, hstep, -⟩ := inv_initial.half hfirst
  have hs := (Machine.Reachable.initial (M := machine Nat smallest) rfl).step hfirst hstep
  have hwindow : smallest.InWindow 7 7 := ⟨fun _ => by decide, fun hlt => absurd hlt (by decide)⟩
  obtain ⟨t, ht, hreturned⟩ := (reassembles hs).2.2 (.half 7 true [1])
    ⟨fun m hm => by obtain rfl : 7 = m := Option.some.inj hm; exact hwindow, rfl⟩
  refine ⟨_, t, hs, rfl, ⟨fun m hm => ?_, rfl⟩, ht, hreturned 7 true [1] [2] rfl rfl (by simp [newer])⟩
  obtain rfl : 7 = m := Option.some.inj hm
  exact hwindow

end Reassembly

end Libquic
