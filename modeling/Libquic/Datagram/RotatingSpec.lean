import Libquic.Datagram.Rotating
import Libquic.Lib.FreeList
import Libquic.Lib.Machine

/-!
# What the reassembly buffer holds

The slots, the pool of pieces and the free list amount to a table of pieces, `cell`. `Wf` says
how they hang together, and each function is specified by what it does to the table.
-/
namespace Libquic

open Lib

namespace DatagramOptions

variable (o : DatagramOptions)

/-! ## Sizes -/

theorem countrZero_two_pow {k : Nat} (h : k < 32) : countrZero (2 ^ k) = k := by
  unfold countrZero
  have hfind : (List.range 32).find? (2 ^ k).testBit = some k := by
    rw [List.find?_range_eq_some]
    refine ⟨by simp, by simpa using h, fun j hj => ?_⟩
    simp [hj.ne']
  rw [hfind]
  rfl

/-- Everything is given by the size of a block, a power of two. -/
theorem exists_shift : ∃ k, 5 ≤ k ∧ k ≤ 12 ∧ o.bufsize = 2 ^ (k + 1) := by
  obtain ⟨k, hk⟩ := o.hasSingleBit
  have hge := o.bufsize_ge
  have hle := o.bufsize_le
  rw [hk] at hge hle
  have hlow : 6 ≤ k := (Nat.pow_le_pow_iff_right (by omega : 1 < 2)).mp (hge.trans' (by norm_num))
  have hhigh : k ≤ 13 := (Nat.pow_le_pow_iff_right (by omega : 1 < 2)).mp (hle.trans (by norm_num))
  exact ⟨k - 1, by omega, by omega, by rw [hk]; congr 1; omega⟩

theorem blockSize_eq : o.blockSize = 2 ^ o.blockShift := by
  obtain ⟨k, -, hle, heq⟩ := o.exists_shift
  have hhalf : o.bufsize / 2 = 2 ^ k := by
    rw [heq, Nat.pow_succ]
    omega
  rw [blockSize, blockShift, hhalf, countrZero_two_pow (by omega)]

theorem bufsize_eq : o.bufsize = o.blockSize * 2 := by
  obtain ⟨k, -, -, heq⟩ := o.exists_shift
  rw [blockSize, heq, Nat.pow_succ]
  omega

theorem blockShift_le : 5 ≤ o.blockShift ∧ o.blockShift ≤ 12 := by
  obtain ⟨k, hge, hle, heq⟩ := o.exists_shift
  have hsize : 2 ^ o.blockShift = 2 ^ k := by
    rw [← blockSize_eq, blockSize, heq, Nat.pow_succ]
    omega
  have : o.blockShift = k := Nat.pow_right_injective le_rfl hsize
  omega

theorem blockSize_bounds : 32 ≤ o.blockSize ∧ o.blockSize ≤ 4096 := by
  have hge := o.bufsize_ge
  have hle := o.bufsize_le
  rw [blockSize]
  omega

theorem shiftRight_eq (n : Nat) : n >>> o.blockShift = n / o.blockSize := by
  rw [Nat.shiftRight_eq_div_pow, blockSize_eq]

theorem and_bufsize (n : Nat) : n &&& (o.bufsize - 1) = n % o.bufsize := by
  obtain ⟨k, -, -, heq⟩ := o.exists_shift
  rw [heq, Nat.and_two_pow_sub_one_eq_mod]

theorem blockSize_mul_nblocks : o.blockSize * o.nblocks = 16384 := by
  obtain ⟨hge, hle⟩ := o.blockShift_le
  rw [nblocks, blockSize_eq, Nat.shiftRight_eq_div_pow]
  exact Nat.mul_div_cancel' (pow_dvd_pow 2 (hle.trans (by omega) : o.blockShift ≤ 14))

/-- There are an even number of blocks, and at least four. -/
theorem four_dvd_nblocks : 4 ∣ o.nblocks := by
  obtain ⟨-, hle⟩ := o.blockShift_le
  have hpow : o.nblocks = 2 ^ (14 - o.blockShift) := by
    rw [nblocks, Nat.shiftRight_eq_div_pow]
    exact Nat.pow_div (by omega : o.blockShift ≤ 14) (by omega : 0 < 2)
  rw [hpow]
  exact pow_dvd_pow 2 (by omega : 2 ≤ 14 - o.blockShift)

theorem nblocks_pos : 0 < o.nblocks := by
  have hmul := o.blockSize_mul_nblocks
  exact Nat.pos_of_ne_zero fun h => by simp [h] at hmul

theorem reorderBlocks_eq : o.reorderBlocks = (o.reorderLimit + o.blockSize - 1) / o.blockSize := by
  rw [reorderBlocks, shiftRight_eq]
  rfl

/-- The reorder limit, rounded up to whole blocks -/
def reorderRange : Nat := o.reorderBlocks * o.blockSize

theorem reorderBlocks_ge : 2 ≤ o.reorderBlocks := by
  have hge := o.reorderLimit_ge
  have hsize := o.bufsize_eq
  have hpos := o.blockSize_bounds.1
  rw [reorderBlocks_eq, Nat.le_div_iff_mul_le (by omega)]
  omega

theorem reorderRange_le : o.reorderRange ≤ 8192 := by
  have hle := o.reorderLimit_le
  have hpos := o.blockSize_bounds.1
  obtain ⟨m, hm⟩ := o.four_dvd_nblocks
  have hmul : o.blockSize * (2 * m) = 8192 := by
    have := o.blockSize_mul_nblocks
    grind
  have hblocks : o.reorderBlocks ≤ 2 * m := by
    rw [reorderBlocks_eq, ← Nat.lt_succ_iff, Nat.div_lt_iff_lt_mul (by omega)]
    grind
  calc o.reorderRange ≤ 2 * m * o.blockSize := Nat.mul_le_mul_right _ hblocks
    _ = 8192 := by rw [Nat.mul_comm, hmul]

end DatagramOptions

namespace RotatingBuffer

variable {β : Type} {o : DatagramOptions} {x y : RotatingBuffer β} {i s half : Nat}

/-! ## The table of pieces -/

/-- The index of the piece in a slot. -/
def slotPiece : Nat → Option Nat
  | 0 => none
  | index + 1 => some index

/-- Which half is in the slot `s`, and its data. -/
def cell (x : RotatingBuffer β) (s : Nat) : Option (Bool × List β) := do
  let slot ← x.slots[s]?
  let index ← slotPiece slot
  let p ← x.pieces[index]?
  some (p.first, p.data)

/-- The pieces that are in slots. -/
def used (x : RotatingBuffer β) : List Nat := x.slots.filterMap slotPiece

def next (x : RotatingBuffer β) (index : Nat) : Nat := ((x.pieces[index]?).getD {}).nextFree

/-- Each piece is in one slot or on the free list. -/
structure Pool (o : DatagramOptions) (free : List Nat) (x : RotatingBuffer β) : Prop where
  size : x.slots = [] ∨ x.slots.length = o.bufsize
  pieces : x.pieces.length ≤ o.bufsize
  linked : FreeList.Linked x.next noPiece x.freeHead free
  perm : (x.used ++ free).Perm (List.range x.pieces.length)

/-- The slots of a half that are not empty. -/
def occupied (o : DatagramOptions) (x : RotatingBuffer β) (half : Nat) : Finset Nat :=
  {s ∈ Finset.range o.bufsize | s / o.blockSize = half ∧ (x.cell s).isSome}

structure Wf (o : DatagramOptions) (x : RotatingBuffer β) : Prop where
  pool : ∃ free, Pool o free x
  held : ∀ half < 2, x.held half = (occupied o x half).card
  newest : ∀ block, x.newest = some block → 0 ≤ block ∧ block < o.nblocks
  fresh : x.newest = none → x.slots = []

namespace Pool

variable {free : List Nat}

theorem index_lt (h : Pool o free x) {index : Nat} (hmem : index ∈ x.used) :
    index < x.pieces.length := by
  have := h.perm.mem_iff.mp (List.mem_append_left free hmem)
  simpa using this

theorem free_lt (h : Pool o free x) {index : Nat} (hmem : index ∈ free) :
    index < x.pieces.length := by
  have := h.perm.mem_iff.mp (List.mem_append_right x.used hmem)
  simpa using this

theorem ne_noPiece (h : Pool o free x) {index : Nat} (hlt : index < x.pieces.length) :
    index ≠ noPiece := by
  have := h.pieces
  have := o.bufsize_le
  unfold noPiece
  omega

theorem nodup (h : Pool o free x) : (x.used ++ free).Nodup :=
  h.perm.nodup_iff.mpr List.nodup_range

end Pool

theorem Pool.setHeld {free : List Nat} (h : Pool o free x) (held : Nat → Int) :
    Pool o free { x with held := held } :=
  ⟨h.size, h.pieces, h.linked, h.perm⟩

theorem mem_used {index : Nat} (h : x.slots[s]? = some (index + 1)) : index ∈ x.used :=
  List.mem_filterMap.mpr ⟨index + 1, List.mem_of_getElem? h, rfl⟩

theorem cell_of_slot (index : Nat) {p : Piece β} (h : x.slots[s]? = some (index + 1))
    (hp : x.pieces[index]? = some p) : x.cell s = some (p.first, p.data) := by
  simp [cell, h, slotPiece, hp]

theorem cell_of_empty (h : x.slots[s]? = some 0) : x.cell s = none := by
  simp [cell, h, slotPiece]

theorem wf_empty : Wf o ({} : RotatingBuffer β) where
  pool := ⟨[], .inl rfl, Nat.zero_le _, rfl, .refl _⟩
  held half _ := by simp [occupied, cell]
  newest := by simp
  fresh _ := rfl

/-! ## Slots -/

/-- The pieces in slots other than `i`. -/
def others (x : RotatingBuffer β) (i : Nat) : List Nat :=
  (x.slots.eraseIdx i).filterMap slotPiece

theorem filterMap_set_perm {slots : List Nat} (hi : i < slots.length) (slot : Nat) :
    ((slots.set i slot).filterMap slotPiece).Perm
      ((slotPiece slot).toList ++ (slots.eraseIdx i).filterMap slotPiece) := by
  have h := (List.set_perm_cons_eraseIdx hi slot).filterMap slotPiece
  cases slot with
  | zero => exact h
  | succ index => exact h

theorem used_perm {slot : Nat} (h : x.slots[i]? = some slot) :
    x.used.Perm ((slotPiece slot).toList ++ x.others i) := by
  obtain ⟨hi, heq⟩ := List.getElem?_eq_some_iff.mp h
  have hset := filterMap_set_perm hi slot
  rwa [← heq, List.set_getElem_self hi, heq] at hset

theorem mem_others {index : Nat} (h : x.slots[s]? = some (index + 1)) (hne : s ≠ i) :
    index ∈ x.others i :=
  List.mem_filterMap.mpr ⟨index + 1, List.mem_eraseIdx_iff_getElem?.mpr ⟨s, hne, h⟩, rfl⟩

theorem cell_congr (hslots : y.slots[s]? = x.slots[s]?)
    (hpieces : ∀ index, x.slots[s]? = some (index + 1) → y.pieces[index]? = x.pieces[index]?) :
    y.cell s = x.cell s := by
  unfold cell
  rw [hslots]
  cases hslot : x.slots[s]? with
  | none => rfl
  | some slot =>
    cases slot with
    | zero => rfl
    | succ index => simp [slotPiece, hpieces index hslot]

/-- The slot `i` is emptied, and its piece goes to the free list. -/
theorem Pool.release {free : List Nat} {index : Nat} (h : Pool o free x)
    (hslot : x.slots[i]? = some (index + 1)) :
    ∃ y, x.releasePiece index = .ok y ∧ Pool o (index :: free) { y with slots := y.slots.set i 0 } ∧
      cell { y with slots := y.slots.set i 0 } = Function.update x.cell i none ∧
      y.slots = x.slots ∧ y.newest = x.newest ∧ y.held = x.held := by
  have hlt := h.index_lt (mem_used hslot)
  have hperm : x.used.Perm (index :: x.others i) := used_perm hslot
  have hnodup : ((index :: x.others i) ++ free).Nodup :=
    (hperm.append_right free).nodup_iff.mp h.nodup
  have hi := (List.getElem?_eq_some_iff.mp hslot).1
  have hrelease : x.releasePiece index = .ok { x with
      pieces := x.pieces.set index { x.pieces[index] with data := [], nextFree := x.freeHead }
      freeHead := index } := by
    rw [releasePiece, List.getElem?_eq_getElem hlt]
  refine ⟨_, hrelease, ⟨?_, ?_, ?_, ?_⟩, ?_, rfl, rfl, rfl⟩
  · exact h.size.imp (fun hnil => by simp [hnil]) fun hlen => by simpa using hlen
  · simpa using h.pieces
  · refine h.linked.push (h.ne_noPiece hlt) (by simp [next, hlt]) fun j hj => ?_
    have hne : index ≠ j := fun heq => by simp [heq, hj] at hnodup
    simp [next, hne]
  · have hused := filterMap_set_perm hi 0
    simp only [List.length_set]
    refine List.Perm.trans ?_ h.perm
    exact ((hused.append_right _).trans List.perm_middle).trans (hperm.symm.append_right free)
  · funext s
    by_cases hs : s = i
    · subst hs
      rw [Function.update_self]
      exact cell_of_empty (by simp [hi])
    · rw [Function.update_of_ne hs]
      refine cell_congr (by simp [Ne.symm hs]) fun index' hslot' => ?_
      have hne : index ≠ index' := fun heq => by
        have := mem_others hslot' hs
        simp [heq, this] at hnodup
      simp [hne]

/-- As long as a slot is empty there is room for another piece. -/
theorem Pool.used_lt {free : List Nat} (h : Pool o free x) (hslot : x.slots[i]? = some 0) :
    x.used.length < o.bufsize := by
  have hi := (List.getElem?_eq_some_iff.mp hslot).1
  have hlen : x.slots.length = o.bufsize :=
    h.size.resolve_left fun hnil => by simp [hnil] at hi
  have hused : x.used.length = (x.others i).length := (used_perm hslot).length_eq
  have hothers : (x.others i).length ≤ (x.slots.eraseIdx i).length := List.length_filterMap_le ..
  rw [List.length_eraseIdx_of_lt hi] at hothers
  omega

/-- A piece that was free, or a new one. -/
theorem Pool.take {free : List Nat} (h : Pool o free x) (hroom : x.used.length < o.bufsize) :
    ∃ index free' y, x.takePiece = .ok (index, y) ∧
      (y.slots = x.slots ∧ y.newest = x.newest ∧ y.held = x.held) ∧
      y.pieces.length ≤ o.bufsize ∧ FreeList.Linked y.next noPiece y.freeHead free' ∧
      (index :: x.used ++ free').Perm (List.range y.pieces.length) ∧
      ∀ j ∈ x.used, y.pieces[j]? = x.pieces[j]? := by
  have hlen := h.perm.length_eq
  have hmax := o.bufsize_le
  by_cases hhead : x.freeHead = noPiece
  · obtain rfl : free = [] := (hhead ▸ h.linked).eq_nil
    rw [List.append_nil, List.length_range] at hlen
    refine ⟨x.pieces.length, [], { x with pieces := x.pieces ++ [{}] }, ?_, ⟨rfl, rfl, rfl⟩, ?_,
      hhead, ?_, fun j hj => ?_⟩
    · rw [takePiece, if_pos hhead]
      congr 2
      omega
    · simp only [List.length_append, List.length_singleton]
      omega
    · have hperm := h.perm
      rw [List.append_nil] at hperm ⊢
      rw [List.length_append, List.length_singleton, List.range_succ]
      exact (hperm.cons _).trans (List.perm_append_singleton ..).symm
    · exact List.getElem?_append_left (h.index_lt hj)
  · obtain ⟨rest, rfl, hrest⟩ := h.linked.pop hhead
    have hlt : x.freeHead < x.pieces.length := h.free_lt (by simp)
    have hnext : x.next x.freeHead = x.pieces[x.freeHead].nextFree := by simp [next, hlt]
    refine ⟨x.freeHead, rest, { x with freeHead := x.pieces[x.freeHead].nextFree }, ?_,
      ⟨rfl, rfl, rfl⟩, h.pieces, hnext ▸ hrest, List.perm_middle.symm.trans h.perm, fun _ _ => rfl⟩
    rw [takePiece, if_neg hhead, List.getElem?_eq_getElem hlt]

/-- A piece is put into the slot `i`. -/
theorem Pool.store {free : List Nat} (h : Pool o free x) (hslot : x.slots[i]? = some 0)
    (half : Nat) (first : Bool) (data : List β) :
    ∃ y free', x.store i half first data = .ok y ∧ Pool o free' y ∧
      y.cell = Function.update x.cell i (some (first, data)) ∧
      y.newest = x.newest ∧ y.held = Function.update x.held half (x.held half + 1) := by
  obtain ⟨index, free', y, htake, ⟨hslots, hnewest, hheld⟩, hpieces, hlinked, hperm, hsame⟩ :=
    h.take (h.used_lt hslot)
  have hi := (List.getElem?_eq_some_iff.mp hslot).1
  have hlt : index < y.pieces.length := by simpa using hperm.mem_iff.mp (by simp)
  have hnodup : (index :: x.used ++ free').Nodup := hperm.nodup_iff.mpr List.nodup_range
  have hmax := o.bufsize_le
  have hstore : x.store i half first data = .ok { y with
      pieces := y.pieces.set index { y.pieces[index] with data := data, first := first }
      slots := y.slots.set i (index + 1)
      held := Function.update y.held half (y.held half + 1) } := by
    have hmod : (index + 1) % 2 ^ 16 = index + 1 := by omega
    simp only [RotatingBuffer.store, htake, ok_bind, List.getElem?_eq_getElem hlt, hmod]
  refine ⟨_, free', hstore, ⟨?_, ?_, ?_, ?_⟩, ?_, hnewest, by rw [hheld]⟩
  · exact h.size.imp (fun hnil => by simp [hslots, hnil]) fun hlen => by simpa [hslots] using hlen
  · simpa using hpieces
  · refine hlinked.congr fun j hj => ?_
    have hne : index ≠ j := fun heq => by simp [heq, hj] at hnodup
    simp [next, hne]
  · have hused := filterMap_set_perm hi (index + 1)
    have hempty : x.used.Perm (x.others i) := used_perm hslot
    simp only [List.length_set]
    refine List.Perm.trans (List.Perm.append_right _ ?_) hperm
    rw [used, hslots]
    exact hused.trans (hempty.symm.cons index)
  · funext s
    by_cases hs : s = i
    · subst hs
      rw [Function.update_self]
      refine (cell_of_slot index ?_ (List.getElem?_set_self hlt)).trans rfl
      simp [hslots, hi]
    · rw [Function.update_of_ne hs]
      refine cell_congr (by simp [Ne.symm hs, hslots]) fun index' hslot' => ?_
      have hmem := mem_used hslot'
      have hne : index ≠ index' := fun heq => by simp [heq, hmem] at hnodup
      simp [hne, hsame _ hmem]

theorem Pool.clearSlots {free l : List Nat} (h : Pool o free x)
    (hl : ∀ i ∈ l, i < x.slots.length) :
    ∃ y free', x.clearSlots l = .ok y ∧ Pool o free' y ∧
      y.cell = (fun s => if s ∈ l then none else x.cell s) ∧
      y.slots.length = x.slots.length ∧ y.newest = x.newest ∧ y.held = x.held := by
  induction l generalizing x free with
  | nil => exact ⟨x, free, rfl, h, by simp, rfl, rfl, rfl⟩
  | cons i rest ih =>
    have hi : i < x.slots.length := hl i (by simp)
    have hrest : ∀ j ∈ rest, j < x.slots.length := fun j hj => hl j (by simp [hj])
    cases hslot : x.slots[i] with
    | zero =>
      have hget : x.slots[i]? = some 0 := by rw [List.getElem?_eq_getElem hi, hslot]
      obtain ⟨y, free', hy, hpool, hcell, hfields⟩ := ih h hrest
      refine ⟨y, free', by rw [RotatingBuffer.clearSlots, hget]; exact hy, hpool, ?_, hfields⟩
      rw [hcell]
      funext s
      by_cases hs : s = i
      · simp [hs, cell_of_empty hget]
      · simp [hs]
    | succ index =>
      have hget : x.slots[i]? = some (index + 1) := by rw [List.getElem?_eq_getElem hi, hslot]
      obtain ⟨z, hz, hpool, hcell, hslots, hnewest, hheld⟩ := h.release hget
      obtain ⟨y, free', hy, hpool', hcell', hlen, hnewest', hheld'⟩ :=
        ih hpool (by simpa [hslots] using hrest)
      refine ⟨y, free', ?_, hpool', ?_, by simpa [hslots] using hlen, hnewest'.trans hnewest,
        hheld'.trans hheld⟩
      · rw [RotatingBuffer.clearSlots, hget]
        simp only [hz, ok_bind, hy]
      · rw [hcell', hcell]
        funext s
        by_cases hs : s = i
        · simp [hs]
        · simp [hs, Function.update_of_ne]

/-! ## Halves -/

theorem mem_occupied : s ∈ occupied o x half ↔
    s < o.bufsize ∧ s / o.blockSize = half ∧ (x.cell s).isSome := by
  simp [occupied]

theorem cell_eq_none (h : x.slots = []) : x.cell s = none := by
  simp [cell, h]

theorem div_lt_two (hs : s < o.bufsize) : s / o.blockSize < 2 := by
  rw [o.bufsize_eq] at hs
  exact Nat.div_lt_of_lt_mul hs

theorem lt_bufsize (hs : s / o.blockSize < 2) : s < o.bufsize := by
  have hpos := o.blockSize_bounds.1
  rw [o.bufsize_eq, Nat.mul_comm]
  exact (Nat.div_lt_iff_lt_mul (by omega)).mp hs

/-- A half that holds nothing has only empty slots. -/
theorem Wf.cell_of_held (h : Wf o x) (hhalf : half < 2) (hheld : x.held half = 0)
    (hs : s / o.blockSize = half) : x.cell s = none := by
  have hcard := h.held half hhalf
  rw [hheld] at hcard
  have hempty : occupied o x half = ∅ := Finset.card_eq_zero.mp (by exact_mod_cast hcard.symm)
  by_contra hcell
  have hmem : s ∈ occupied o x half :=
    mem_occupied.mpr ⟨lt_bufsize (hs ▸ hhalf), hs, Option.isSome_iff_ne_none.mpr hcell⟩
  simp [hempty] at hmem

theorem clearHalf_spec (h : Wf o x) (hhalf : half < 2) :
    ∃ y, x.clearHalf o half = .ok y ∧ Wf o y ∧
      y.cell = (fun s => if s / o.blockSize = half then none else x.cell s) ∧
      y.newest = x.newest := by
  unfold clearHalf
  by_cases hheld : x.held half = 0
  · rw [if_pos hheld]
    refine ⟨x, rfl, h, ?_, rfl⟩
    funext s
    split_ifs with hs
    · exact h.cell_of_held hhalf hheld hs
    · rfl
  · obtain ⟨free, hpool⟩ := h.pool
    have hslots : x.slots.length = o.bufsize := by
      refine hpool.size.resolve_left fun hnil => hheld ?_
      rw [h.held half hhalf]
      simp [occupied, cell_eq_none hnil]
    have hmem (s : Nat) : s ∈ List.range' (half * o.blockSize) o.blockSize ↔
        s / o.blockSize = half := by
      have hpos := o.blockSize_bounds.1
      rw [List.mem_range'_1, Nat.div_eq_iff (by omega)]
      grind
    obtain ⟨y, free', hy, hpool', hcell, hlen, hnewest, hheld'⟩ :=
      hpool.clearSlots fun i hi => hslots ▸ lt_bufsize ((hmem i).mp hi ▸ hhalf)
    simp only [hmem] at hcell
    rw [if_neg hheld, hy, ok_bind]
    refine ⟨_, rfl, ⟨⟨free', hpool'.setHeld _⟩, fun half' hhalf' => ?_, ?_, fun hnone => ?_⟩, hcell,
      hnewest⟩
    · change Function.update y.held half 0 half' = ((occupied o y half').card : Int)
      by_cases heq : half' = half
      · have hempty : occupied o y half' = ∅ := by
          ext s
          simp only [mem_occupied, hcell]
          grind
        rw [heq, Function.update_self, ← heq, hempty, Finset.card_empty, Nat.cast_zero]
      · have hsame : occupied o y half' = occupied o x half' := by
          ext s
          simp only [mem_occupied, hcell]
          grind
        rw [Function.update_of_ne heq, hheld', hsame, h.held half' hhalf']
    · intro block hblock
      exact h.newest block (hnewest ▸ hblock)
    · have hnil := h.fresh (hnewest ▸ hnone)
      have := o.bufsize_ge
      simp [hnil] at hslots
      omega

/-! ## Moving forward -/

/-- What `advance` can do for a counter of the given block. -/
inductive Advances (o : DatagramOptions) (x : RotatingBuffer β) (block : Int) :
    Bool → RotatingBuffer β → Prop where
  | start : x.newest = none → Advances o x block true { x with newest := some block }
  | held {newest : Int} : x.newest = some newest → o.wrap (newest - block) ≤ 1 →
      Advances o x block true x
  | late {newest : Int} : x.newest = some newest → 1 < o.wrap (newest - block) →
      o.wrap (newest - block) < o.reorderBlocks → Advances o x block false x
  | jump {newest : Int} {y : RotatingBuffer β} : x.newest = some newest →
      1 < o.wrap (newest - block) → o.reorderBlocks ≤ o.wrap (newest - block) →
      y.newest = some block →
      (∀ s, y.cell s = if s / o.blockSize = (block % 2).toNat ∨ 1 < o.wrap (block - newest) then none
        else x.cell s) → Advances o x block true y

theorem Wf.cell_of_ge (h : Wf o x) (hs : o.bufsize ≤ s) : x.cell s = none := by
  obtain ⟨free, hpool⟩ := h.pool
  have hlen : x.slots.length ≤ o.bufsize := by
    rcases hpool.size with hnil | hlen
    · simp [hnil]
    · exact hlen.le
  simp [cell, List.getElem?_eq_none (hlen.trans hs)]

theorem Wf.setNewest (h : Wf o x) {block : Int} (hblock : 0 ≤ block ∧ block < o.nblocks) :
    Wf o { x with newest := some block } := by
  obtain ⟨free, hpool⟩ := h.pool
  refine ⟨⟨free, hpool.size, hpool.pieces, hpool.linked, hpool.perm⟩, h.held, ?_, by simp⟩
  rintro _ ⟨rfl⟩
  exact hblock

theorem advance_spec {counter : Nat} (h : Wf o x) (hcounter : counter < 2 ^ 14) :
    ∃ fresh y, x.advance o counter = .ok (fresh, y) ∧ Wf o y ∧
      Advances o x (counter / o.blockSize : Nat) fresh y := by
  have hblock : 0 ≤ ((counter / o.blockSize : Nat) : Int) ∧
      ((counter / o.blockSize : Nat) : Int) < o.nblocks := by
    refine ⟨Int.natCast_nonneg _, Int.ofNat_lt.mpr ?_⟩
    exact Nat.div_lt_of_lt_mul (o.blockSize_mul_nblocks ▸ hcounter)
  unfold advance
  rw [o.shiftRight_eq]
  generalize ((counter / o.blockSize : Nat) : Int) = block at hblock
  dsimp only
  cases hnewest : x.newest with
  | none => exact ⟨_, _, rfl, h.setNewest hblock, .start hnewest⟩
  | some newest =>
    simp only [heldBlock, decide_eq_true_eq]
    by_cases hheld : o.wrap (newest - block) ≤ 1
    · rw [if_pos hheld]
      exact ⟨_, _, rfl, h, .held hnewest hheld⟩
    by_cases hlate : o.wrap (newest - block) < o.reorderBlocks
    · rw [if_neg hheld, if_pos hlate]
      exact ⟨_, _, rfl, h, .late hnewest (by omega) hlate⟩
    rw [if_neg hheld, if_neg hlate]
    obtain ⟨y, hy, hwf, hcell, -⟩ := clearHalf_spec h (by omega : (block % 2).toNat < 2)
    rw [hy, ok_bind]
    by_cases hskip : o.wrap (block - newest) > 1
    · obtain ⟨z, hz, hwf', hcell', -⟩ := clearHalf_spec hwf (by omega : ((block - 1) % 2).toNat < 2)
      rw [if_pos hskip, hz, ok_bind]
      refine ⟨_, _, rfl, hwf'.setNewest hblock,
        .jump hnewest (by omega) (by omega) rfl fun s => ?_⟩
      -- the two halves are all there is
      have hlarge : s / o.blockSize ≠ (block % 2).toNat → s / o.blockSize ≠ ((block - 1) % 2).toNat →
          x.cell s = none := fun h₀ h₁ => by
        refine h.cell_of_ge (Nat.le_of_not_lt fun hlt => ?_)
        have hhalf := div_lt_two hlt
        generalize s / o.blockSize = half at h₀ h₁ hhalf
        omega
      change z.cell s = _
      rw [hcell', hcell, if_pos (.inr hskip)]
      dsimp only
      split_ifs with h₁ h₀
      · rfl
      · rfl
      · exact hlarge h₀ h₁
    · rw [if_neg hskip, ok_bind]
      refine ⟨_, _, rfl, hwf.setNewest hblock, .jump hnewest (by omega) (by omega) rfl fun s => ?_⟩
      change y.cell s = _
      simp only [hcell, hskip, or_false]

/-! ## Receiving -/

theorem Advances.newest_ne {block : Int} {fresh : Bool} (h : Advances o x block fresh y) :
    y.newest ≠ none := by
  cases h with
  | start _ => simp
  | held hnewest _ => simp [hnewest]
  | late hnewest _ _ => simp [hnewest]
  | jump _ _ _ hnewest _ => simp [hnewest]

theorem Wf.allocate (h : Wf o x) (hnewest : x.newest ≠ none) (hnil : x.slots = []) :
    Wf o { x with slots := List.replicate o.bufsize 0 } ∧
      cell { x with slots := List.replicate o.bufsize 0 } = x.cell := by
  obtain ⟨free, hpool⟩ := h.pool
  have hcell : cell { x with slots := List.replicate o.bufsize 0 } = x.cell := by
    funext s
    rw [cell_eq_none hnil]
    by_cases hs : s < o.bufsize
    · exact cell_of_empty (by simp [hs])
    · simp [cell, hs]
  have hused : x.used = used { x with slots := List.replicate o.bufsize 0 } := by
    simp [used, hnil, List.filterMap_replicate, slotPiece]
  refine ⟨⟨⟨free, .inr (by simp), hpool.pieces, hpool.linked, hused ▸ hpool.perm⟩,
    fun half hhalf => ?_, h.newest, fun hnone => absurd hnone hnewest⟩, hcell⟩
  rw [occupied, hcell]
  exact h.held half hhalf

theorem card_occupied (hi : i < o.bufsize) (hhalf : i / o.blockSize = half) :
    (occupied o x half).card = ((occupied o x half).erase i).card + (x.cell i).isSome.toNat := by
  cases hcell : (x.cell i).isSome with
  | true =>
    have hmem : i ∈ occupied o x half := mem_occupied.mpr ⟨hi, hhalf, hcell⟩
    rw [Finset.card_erase_of_mem hmem]
    have := Finset.card_pos.mpr ⟨i, hmem⟩
    simp
    omega
  | false =>
    have hnot : i ∉ occupied o x half := fun hmem => by simp [(mem_occupied.mp hmem).2.2] at hcell
    rw [Finset.erase_eq_of_notMem hnot]
    rfl

/-- The contents of one slot change. -/
theorem Wf.setCell {v : Option (Bool × List β)} (h : Wf o x) (hpool : ∃ free, Pool o free y)
    (hi : i < o.bufsize) (hnone : x.newest ≠ none) (hnewest : y.newest = x.newest)
    (hcell : y.cell = Function.update x.cell i v)
    (hheld : y.held = Function.update x.held (i / o.blockSize)
      (x.held (i / o.blockSize) + v.isSome.toNat - (x.cell i).isSome.toNat)) : Wf o y := by
  refine ⟨hpool, fun half hhalf => ?_, hnewest ▸ h.newest,
    fun hnone' => absurd (hnewest ▸ hnone') hnone⟩
  rw [hheld]
  by_cases heq : i / o.blockSize = half
  · have hrest : (occupied o y half).erase i = (occupied o x half).erase i := by
      ext s
      simp only [mem_occupied, hcell, Finset.mem_erase]
      grind
    have hx : (occupied o x half).card = _ := card_occupied hi heq
    have hy : (occupied o y half).card = _ := card_occupied hi heq
    rw [hrest, hcell, Function.update_self] at hy
    rw [heq, Function.update_self, h.held half hhalf, hx, hy]
    push_cast
    omega
  · have hsame : occupied o y half = occupied o x half := by
      ext s
      simp only [mem_occupied, hcell]
      grind
    rw [Function.update_of_ne (Ne.symm heq), hsame, h.held half hhalf]

theorem Wf.store (h : Wf o x) (hslot : x.slots[i]? = some 0) (hi : i < o.bufsize) (first : Bool)
    (data : List β) :
    ∃ y, x.store i (i / o.blockSize) first data = .ok y ∧ Wf o y ∧ y.newest = x.newest ∧
      y.cell = Function.update x.cell i (some (first, data)) := by
  obtain ⟨free, hpool⟩ := h.pool
  obtain ⟨y, free', hy, hpool', hcell, hnewest, hheld⟩ :=
    hpool.store hslot (i / o.blockSize) first data
  have hnone : x.newest ≠ none := fun hnone => by simp [h.fresh hnone] at hslot
  refine ⟨y, hy, h.setCell ⟨free', hpool'⟩ hi hnone hnewest hcell ?_, hnewest, hcell⟩
  rw [hheld, cell_of_empty hslot]
  simp

theorem Wf.pair {index : Nat} {p : Piece β} (h : Wf o x) (hslot : x.slots[i]? = some (index + 1))
    (hp : x.pieces[index]? = some p) (hi : i < o.bufsize) :
    ∃ y, x.pair i (i / o.blockSize) index = .ok y ∧ Wf o y ∧ y.newest = x.newest ∧
      y.cell = Function.update x.cell i none := by
  obtain ⟨free, hpool⟩ := h.pool
  obtain ⟨y, hy, hpool', hcell, hslots, hnewest, hheld⟩ := hpool.release hslot
  have hnone : x.newest ≠ none := fun hnone => by simp [h.fresh hnone] at hslot
  have hpair : x.pair i (i / o.blockSize) index = .ok { y with
      slots := y.slots.set i 0
      held := Function.update y.held (i / o.blockSize) (y.held (i / o.blockSize) - 1) } := by
    rw [RotatingBuffer.pair, hy, ok_bind]
  refine ⟨_, hpair, h.setCell ⟨_, hpool'.setHeld _⟩ hi hnone hnewest hcell ?_, hnewest, hcell⟩
  rw [hheld, cell_of_slot index hslot hp]
  simp

/-- A piece meets what is in its slot: the datagram that comes out, if any, and what the slot
holds afterwards. -/
def meet (first : Bool) (data : List β) :
    Option (Bool × List β) → Option (List β) × Option (Bool × List β)
  | none => (none, some (first, data))
  | some (first', data') =>
    if first' = first then (none, some (first', data'))
    else (some (if first' then data' ++ data else data ++ data'), none)

/-- What `receive` can do with a piece. -/
inductive Receives (o : DatagramOptions) (x : RotatingBuffer β) (counter : Nat) (first : Bool)
    (data : List β) : Option (List β) → RotatingBuffer β → Prop where
  | late {y : RotatingBuffer β} : Advances o x (counter / o.blockSize : Nat) false y →
      Receives o x counter first data none y
  | meets {y z : RotatingBuffer β} : Advances o x (counter / o.blockSize : Nat) true y →
      z.newest = y.newest →
      z.cell = Function.update y.cell (counter % o.bufsize)
        (meet first data (y.cell (counter % o.bufsize))).2 →
      Receives o x counter first data (meet first data (y.cell (counter % o.bufsize))).1 z

theorem receiveAt_spec (h : Wf o x) (hslots : x.slots ≠ []) (hi : i < o.bufsize) (first : Bool)
    (data : List β) :
    ∃ z, x.receiveAt i (i / o.blockSize) first data = .ok ((meet first data (x.cell i)).1, z) ∧
      Wf o z ∧ z.newest = x.newest ∧
      z.cell = Function.update x.cell i (meet first data (x.cell i)).2 := by
  obtain ⟨free, hpool⟩ := h.pool
  have hlen : i < x.slots.length := (hpool.size.resolve_left hslots).symm ▸ hi
  unfold receiveAt
  cases hget : x.slots[i] with
  | zero =>
    have hslot : x.slots[i]? = some 0 := by rw [List.getElem?_eq_getElem hlen, hget]
    obtain ⟨z, hz, hwf, hnewest, hcell⟩ := h.store hslot hi first data
    rw [hslot, cell_of_empty hslot]
    simp only [hz, ok_bind]
    exact ⟨z, rfl, hwf, hnewest, hcell⟩
  | succ index =>
    have hslot : x.slots[i]? = some (index + 1) := by rw [List.getElem?_eq_getElem hlen, hget]
    obtain ⟨p, hp⟩ : ∃ p, x.pieces[index]? = some p :=
      ⟨_, List.getElem?_eq_getElem (hpool.index_lt (mem_used hslot))⟩
    rw [hslot, cell_of_slot index hslot hp]
    simp only [hp, meet]
    by_cases hfirst : p.first = first
    · rw [if_pos hfirst, if_pos hfirst]
      refine ⟨x, rfl, h, rfl, ?_⟩
      rw [← cell_of_slot index hslot hp, Function.update_eq_self]
    · obtain ⟨z, hz, hwf, hnewest, hcell⟩ := h.pair hslot hp hi
      rw [if_neg hfirst, if_neg hfirst, hz]
      exact ⟨z, rfl, hwf, hnewest, hcell⟩

theorem half_eq (counter : Nat) :
    (counter >>> o.blockShift) &&& 1 = counter % o.bufsize / o.blockSize := by
  rw [o.shiftRight_eq, Nat.and_one_is_mod, o.bufsize_eq, Nat.mod_mul_right_div_self]

theorem receive_spec {dgid : Nat} (h : Wf o x) (hdgid : dgid < 2 ^ 16) (data : List β) :
    ∃ out z, x.receive o data dgid = .ok (out, z) ∧ Wf o z ∧
      Receives o x (dgid >>> 2) (dgid &&& 0b11 == dgidSplitFirst) data out z := by
  have hcounter : dgid >>> 2 < 2 ^ 14 := by
    rw [Nat.shiftRight_eq_div_pow]
    omega
  obtain ⟨fresh, y, hadvance, hwf, hadv⟩ := advance_spec h hcounter
  have hi : dgid >>> 2 % o.bufsize < o.bufsize := Nat.mod_lt _ (by have := o.bufsize_ge; omega)
  simp only [receive, hadvance, ok_bind, o.and_bufsize, half_eq]
  cases fresh with
  | false => exact ⟨none, y, rfl, hwf, .late hadv⟩
  | true =>
    simp only [Bool.not_true, Bool.false_eq_true, if_false]
    by_cases hnil : y.slots = []
    · -- the slots are made when the first piece arrives
      obtain ⟨hwf', hcell'⟩ := hwf.allocate hadv.newest_ne hnil
      have hslots : List.replicate o.bufsize 0 ≠ [] := by
        have := o.bufsize_ge
        simp
        omega
      obtain ⟨z, hz, hwfz, hnewest, hcell⟩ :=
        receiveAt_spec hwf' hslots hi (dgid &&& 0b11 == dgidSplitFirst) data
      rw [hcell'] at hz hcell
      simp only [hnil, List.isEmpty_nil, if_true, hz]
      exact ⟨_, z, rfl, hwfz, .meets hadv hnewest hcell⟩
    · obtain ⟨z, hz, hwfz, hnewest, hcell⟩ :=
        receiveAt_spec hwf hnil hi (dgid &&& 0b11 == dgidSplitFirst) data
      simp only [List.isEmpty_iff, hnil, if_false, hz]
      exact ⟨_, z, rfl, hwfz, .meets hadv hnewest hcell⟩

end RotatingBuffer

end Libquic
