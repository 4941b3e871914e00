import Libquic.Datagram.Late

/-!
# The bookkeeping of the reassembly buffer

The counters of the two halves, the slots and the free list in every state that the buffer can be
brought into, whatever ids a peer sends; and `completes`, which tells in advance whether a piece is
the second of its datagram.
-/
namespace Libquic

open Lib

namespace RotatingBuffer

variable {β : Type} {o : DatagramOptions} {x y : RotatingBuffer β} {s half : Nat}

/-! ## Slots -/

/-- The slots of a half that are not empty, by their position in it. -/
def nonempty (o : DatagramOptions) (x : RotatingBuffer β) (half : Nat) : Finset Nat :=
  {j ∈ Finset.range o.blockSize | x.slots.getD (half * o.blockSize + j) 0 ≠ 0}

/-- The piece is in a slot. -/
def InUse (x : RotatingBuffer β) (index : Nat) : Prop :=
  ∃ s : Nat, x.slots[s]? = some (index + 1)

/-- A slot that is not empty has its piece. -/
theorem Pool.cell_isSome {free : List Nat} (h : Pool o free x) (s : Nat) :
    (x.cell s).isSome ↔ x.slots.getD s 0 ≠ 0 := by
  cases hslot : x.slots[s]? with
  | none => simp [cell, hslot]
  | some slot =>
    cases slot with
    | zero => simp [cell_of_empty hslot, hslot]
    | succ index =>
      have hlt := h.index_lt (mem_used hslot)
      rw [cell_of_slot index hslot (List.getElem?_eq_getElem hlt)]
      simp [hslot]

theorem card_nonempty {free : List Nat} (h : Pool o free x) (hhalf : half < 2) :
    (nonempty o x half).card = (occupied o x half).card := by
  have hpos := o.blockSize_bounds.1
  have himage : occupied o x half = (nonempty o x half).image (half * o.blockSize + ·) := by
    ext s
    simp only [mem_occupied, h.cell_isSome, nonempty, Finset.mem_image, Finset.mem_filter,
      Finset.mem_range]
    constructor
    · rintro ⟨-, hs, hne⟩
      have hdiv := Nat.div_add_mod s o.blockSize
      have hsplit : half * o.blockSize + s % o.blockSize = s := by rw [← hs, Nat.mul_comm, hdiv]
      exact ⟨s % o.blockSize, ⟨Nat.mod_lt _ (by omega), by rwa [hsplit]⟩, hsplit⟩
    · rintro ⟨j, ⟨hj, hne⟩, rfl⟩
      have hdiv : (half * o.blockSize + j) / o.blockSize = half := by
        rw [Nat.mul_comm, Nat.mul_add_div (by omega), Nat.div_eq_of_lt hj, Nat.add_zero]
      exact ⟨lt_bufsize (by rwa [hdiv]), hdiv, hne⟩
  rw [himage, Finset.card_image_of_injective _ (add_right_injective _)]

theorem inUse_iff {index : Nat} : x.InUse index ↔ index ∈ x.used := by
  constructor
  · rintro ⟨s, hslot⟩
    exact mem_used hslot
  · intro hmem
    obtain ⟨slot, hslot, hpiece⟩ := List.mem_filterMap.mp hmem
    obtain ⟨s, hs⟩ := List.mem_iff_getElem?.mp hslot
    cases slot with
    | zero => simp [slotPiece] at hpiece
    | succ index' =>
      obtain rfl := Option.some.inj hpiece
      exact ⟨s, hs⟩

/-- No piece is in two slots. -/
theorem Pool.slot_injective {free : List Nat} (h : Pool o free x) {s s' index : Nat}
    (hs : x.slots[s]? = some (index + 1)) (hs' : x.slots[s']? = some (index + 1)) : s = s' := by
  by_contra hne
  have hother : index ∈ x.others s := mem_others hs' (Ne.symm hne)
  have hnodup : (index :: x.others s).Nodup := (used_perm hs).nodup_iff.mp h.nodup.of_append_left
  exact (List.nodup_cons.mp hnodup).1 hother

/-- The free list ends, and has each piece once that is not in a slot. -/
structure FreePieces (free : List Nat) (x : RotatingBuffer β) : Prop where
  linked : FreeList.Linked x.next noPiece x.freeHead free
  nodup : free.Nodup
  disjoint : ∀ index ∈ free, ¬ x.InUse index
  all : ∀ index, index < x.pieces.length ↔ x.InUse index ∨ index ∈ free

theorem Pool.freePieces {free : List Nat} (h : Pool o free x) : FreePieces free x where
  linked := h.linked
  nodup := h.nodup.of_append_right
  disjoint index hfree hused :=
    List.disjoint_of_nodup_append h.nodup (inUse_iff.mp hused) hfree
  all index := by
    rw [inUse_iff, ← List.mem_append, h.perm.mem_iff, List.mem_range]

/-! ## Which pieces complete a datagram -/

/-- A piece completes a datagram if its slot has the other half. -/
theorem meet_isSome (first : Bool) (data : List β) (held : Option (Bool × List β)) :
    (meet first data held).1.isSome = held.any fun p => p.1 != first := by
  cases held with
  | none => rfl
  | some p =>
    obtain ⟨first', data'⟩ := p
    cases first <;> cases first' <;> rfl

/-- `completes` looks at the piece that is held for the counter. -/
theorem completes_eq (h : Wf o x) (dgid : Nat) :
    x.completes o dgid = .ok ((heldFor o x (dgid >>> 2)).any fun p =>
      p.1 != (dgid &&& 0b11 == dgidSplitFirst)) := by
  obtain ⟨free, hpool⟩ := h.pool
  simp only [completes, heldFor, o.shiftRight_eq, o.and_bufsize]
  generalize dgid >>> 2 = counter
  generalize ((counter / o.blockSize : Nat) : Int) = block
  by_cases hnil : x.slots = []
  · cases x.newest <;> simp [hnil, cell_eq_none hnil]
  rw [if_neg (by simpa using hnil)]
  cases hnewest : x.newest with
  | none => exact absurd (h.fresh hnewest) hnil
  | some newest =>
    have hlen : counter % o.bufsize < x.slots.length := by
      rw [hpool.size.resolve_left hnil]
      exact Nat.mod_lt _ (by have := o.bufsize_ge; omega)
    cases hheld : heldBlock o newest block with
    | false => simp [hheld]
    | true =>
      cases hget : x.slots[counter % o.bufsize] with
      | zero =>
        have hslot : x.slots[counter % o.bufsize]? = some 0 := by
          rw [List.getElem?_eq_getElem hlen, hget]
        simp [hheld, hslot, cell_of_empty hslot]
      | succ index =>
        have hslot : x.slots[counter % o.bufsize]? = some (index + 1) := by
          rw [List.getElem?_eq_getElem hlen, hget]
        have hp := List.getElem?_eq_getElem (hpool.index_lt (mem_used hslot))
        simp [hheld, hslot, hp, cell_of_slot index hslot hp]

theorem heldFor_eq {counter : Nat} {newest : Int} (h : x.newest = some newest) :
    heldFor o x counter = if o.wrap (newest - (counter / o.blockSize : Nat)) ≤ 1 then
      x.cell (counter % o.bufsize) else none := by
  simp only [heldFor, h, heldBlock, decide_eq_true_eq, Option.bind_eq_bind, Option.bind_some]

/-- A piece that is not late meets what is held for its counter: if its block was not held, its
half has been cleared. -/
theorem Advances.cell_eq_heldFor {counter : Nat} (h : Wf o x)
    (hadv : Advances o x (counter / o.blockSize : Nat) true y) :
    y.cell (counter % o.bufsize) = heldFor o x counter := by
  cases hadv with
  | start hnone => simp [heldFor, hnone, cell, h.fresh hnone]
  | held hnewest hwrap => rw [heldFor_eq hnewest, if_pos hwrap]
  | jump hnewest hwrap _ _ hcell =>
    have hhalf : counter % o.bufsize / o.blockSize =
        (((counter / o.blockSize : Nat) : Int) % 2).toNat := by
      rw [o.slot_half]
      omega
    rw [hcell, if_pos (.inl hhalf), heldFor_eq hnewest, if_neg (by omega)]

/-- `completes` is right. -/
theorem receive_completes (h : Wf o x) {dgid : Nat} (hdgid : dgid < 2 ^ 16) (data : List β) :
    ∃ out y, x.receive o data dgid = .ok (out, y) ∧ x.completes o dgid = .ok out.isSome := by
  obtain ⟨out, y, hok, -, hrec⟩ := receive_spec h hdgid data
  refine ⟨out, y, hok, ?_⟩
  rw [completes_eq h]
  cases hrec with
  | late hadv =>
    cases hadv with
    | late hnewest hwrap _ =>
      rw [heldFor_eq hnewest, if_neg (by omega)]
      rfl
  | meets hadv _ _ => rw [hadv.cell_eq_heldFor h, meet_isSome]

/-! ## Runs -/

/-- The calls of a buffer. -/
inductive Call (β : Type) where
  | receive (data : List β) (dgid : Nat)
  | observe (dgid : Nat)
  deriving DecidableEq, Repr

def Call.dgid : Call β → Nat
  | .receive _ dgid => dgid
  | .observe dgid => dgid

def step (o : DatagramOptions) (x : RotatingBuffer β) : Call β → Except Fault (RotatingBuffer β)
  | .receive data dgid => do
    let result ← x.receive o data dgid
    .ok result.2
  | .observe dgid => x.observe o dgid

/-- Calls with any ids of 16 bits. -/
def machine (β : Type) (o : DatagramOptions) : Machine (RotatingBuffer β) (Call β) Fault where
  initial x := x = {}
  enabled _ call := call.dgid < 2 ^ 16
  step := step o

instance (x : RotatingBuffer β) (call : Call β) : Decidable ((machine β o).enabled x call) :=
  inferInstanceAs (Decidable (call.dgid < 2 ^ 16))

theorem inductive_wf : (machine β o).Inductive (Wf o) where
  initial := by
    rintro _ rfl
    exact wf_empty
  step x call h hdgid := by
    cases call with
    | receive data dgid =>
      obtain ⟨out, y, hok, hwf, -⟩ := receive_spec h (show dgid < 2 ^ 16 from hdgid) data
      exact ⟨y, by simp only [machine, step, hok, ok_bind], hwf⟩
    | observe dgid =>
      have hcounter : dgid >>> 2 < 2 ^ 14 := by
        rw [Nat.shiftRight_eq_div_pow]
        exact Nat.div_lt_of_lt_mul hdgid
      obtain ⟨fresh, y, hok, hwf, -⟩ := advance_spec h hcounter
      exact ⟨y, by simp only [machine, step, observe, hok, ok_bind], hwf⟩

/-- The counters are right, no piece is in two slots, the free list has all other pieces, and there
are never more pieces than slots. `completes` is true exactly if `receive` would return a
datagram. -/
theorem buffer_accounts (h : (machine β o).Reachable x) :
    (∀ half < 2, x.held half = (nonempty o x half).card) ∧
    (∀ s s' index : Nat, x.slots[s]? = some (index + 1) → x.slots[s']? = some (index + 1) →
      s = s') ∧
    (∃ free, FreePieces free x) ∧
    x.pieces.length ≤ o.bufsize ∧ (∀ index < x.pieces.length, index < noPiece) ∧
    ∀ dgid < 2 ^ 16, ∀ data, ∃ out y, x.receive o data dgid = .ok (out, y) ∧
      x.completes o dgid = .ok out.isSome := by
  have hwf := inductive_wf.reachable h
  obtain ⟨free, hpool⟩ := hwf.pool
  refine ⟨?_, fun s s' index => hpool.slot_injective, ⟨free, hpool.freePieces⟩, hpool.pieces, ?_,
    fun dgid hdgid => receive_completes hwf hdgid⟩
  · intro half hhalf
    rw [hwf.held half hhalf, card_nonempty hpool hhalf]
  · intro index hindex
    have hle := hpool.pieces
    have hmax := o.bufsize_le
    unfold noPiece
    omega

/-- A half is held, and the other one is the one that completes the datagram. -/
theorem buffer_accounts_one_half :
    ∃ x : RotatingBuffer Nat, (machine Nat smallest).Reachable x ∧ (nonempty smallest x 0).card = 1 ∧
      x.completes smallest (dgid 7 dgidSplitSecond) = .ok true ∧
      ∃ out y, x.receive smallest [2] (dgid 7 dgidSplitSecond) = .ok (some out, y) := by
  have hrun : ((machine Nat smallest).run {} [.receive [1] (dgid 7 dgidSplitFirst)]).map
      (fun x => (x.held 0, (x.completes smallest (dgid 7 dgidSplitSecond)).toOption)) =
      some (1, some true) := by decide +kernel
  obtain ⟨x, hx, hview⟩ := Option.map_eq_some_iff.mp hrun
  obtain ⟨hheld, htrue⟩ := Prod.mk.inj hview
  have hreach := (Machine.Reachable.initial (M := machine Nat smallest) rfl).run hx
  obtain ⟨hcount, -, -, -, -, hcompletes⟩ := buffer_accounts hreach
  obtain ⟨out, y, hok, hsome⟩ := hcompletes (dgid 7 dgidSplitSecond) (by decide) [2]
  rw [hsome] at htrue
  obtain ⟨out, rfl⟩ := Option.isSome_iff_exists.mp (Option.some.inj htrue)
  have hcard := hcount 0 (by decide)
  rw [hheld] at hcard
  exact ⟨x, hreach, by exact_mod_cast hcard.symm, hsome, out, y, hok⟩

end RotatingBuffer

end Libquic
