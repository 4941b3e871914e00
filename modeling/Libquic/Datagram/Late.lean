import Libquic.Datagram.Reassembly

/-!
# Late datagrams

A datagram within the reorder limit of the newest one is late, and is to leave the buffer alone.
The buffer compares blocks, though, and not counters.
-/
namespace Libquic

open Lib

namespace RotatingBuffer

variable {β : Type} {o : DatagramOptions} {x y z : RotatingBuffer β} {counter : Nat}

/-- The piece held for the datagram with this counter. -/
def heldFor (o : DatagramOptions) (x : RotatingBuffer β) (counter : Nat) :
    Option (Bool × List β) := do
  let newest ← x.newest
  if heldBlock o newest (counter / o.blockSize : Nat) then x.cell (counter % o.bufsize) else none

/-- The newest block stays, and so do the pieces of all other datagrams. -/
def Harmless (o : DatagramOptions) (counter : Nat) (x z : RotatingBuffer β) : Prop :=
  z.newest = x.newest ∧ ∀ other < 2 ^ 14, other ≠ counter → heldFor o z other = heldFor o x other

/-- The datagram's block is one that is held or late. -/
def BlockIsLate (o : DatagramOptions) (x : RotatingBuffer β) (counter : Nat) : Prop :=
  ∃ newest, x.newest = some newest ∧
    o.wrap (newest - (counter / o.blockSize : Nat)) < o.reorderBlocks

theorem harmless_refl (counter : Nat) (x : RotatingBuffer β) : Harmless o counter x x :=
  ⟨rfl, fun _ _ _ => rfl⟩

/-- Two held counters use different slots. -/
theorem held_slot_ne {newest : Int} {other : Nat} (hcounter : counter < 2 ^ 14)
    (hother : other < 2 ^ 14) (hne : other ≠ counter)
    (hheld : o.wrap (newest - (counter / o.blockSize : Nat)) ≤ 1)
    (hheld' : o.wrap (newest - (other / o.blockSize : Nat)) ≤ 1) :
    other % o.bufsize ≠ counter % o.bufsize := by
  intro hslot
  have hparity : other / o.blockSize % 2 = counter / o.blockSize % 2 := by
    rw [← o.slot_half, ← o.slot_half, hslot]
  have hlt (c : Nat) (hc : c < 2 ^ 14) : c / o.blockSize < o.nblocks :=
    Nat.div_lt_of_lt_mul (o.blockSize_mul_nblocks ▸ hc)
  have hblock := hlt counter hcounter
  have hblock' := hlt other hother
  have hsame := o.held_injective hheld' hheld hparity hblock' hblock
  exact hne (o.slot_injective hslot hsame.ge.step hsame.le.step)

/-- Only a block that is neither held nor late changes the newest one. -/
theorem Advances.late_or_moved {fresh : Bool} {newest : Int} (hnewest : x.newest = some newest)
    (hadv : Advances o x (counter / o.blockSize : Nat) fresh y) :
    (y = x ∧ BlockIsLate o x counter ∧
      (fresh = true → o.wrap (newest - (counter / o.blockSize : Nat)) ≤ 1)) ∨
    (¬ BlockIsLate o x counter ∧ y.newest ≠ x.newest) := by
  have hge := o.reorderBlocks_ge
  cases hadv with
  | start hnone => simp [hnewest] at hnone
  | held hsome hwrap =>
    obtain rfl := Option.some.inj (hnewest.symm.trans hsome)
    exact .inl ⟨rfl, ⟨newest, hnewest, by omega⟩, fun _ => hwrap⟩
  | late hsome hwrap hlate =>
    obtain rfl := Option.some.inj (hnewest.symm.trans hsome)
    exact .inl ⟨rfl, ⟨newest, hnewest, hlate⟩, by simp⟩
  | jump hsome hwrap hfar hy _ =>
    obtain rfl := Option.some.inj (hnewest.symm.trans hsome)
    refine .inr ⟨?_, ?_⟩
    · rintro ⟨newest', hnewest', hlate⟩
      obtain rfl := Option.some.inj (hnewest.symm.trans hnewest')
      omega
    · rw [hy, hnewest]
      intro heq
      rw [Option.some.inj heq, sub_self] at hwrap
      simp [DatagramOptions.wrap] at hwrap

/-- Storing or pairing a piece in its slot touches no other datagram's piece. -/
theorem harmless_of_cell {newest : Int} {v : Option (Bool × List β)} (hcounter : counter < 2 ^ 14)
    (hnewest : x.newest = some newest)
    (hheld : o.wrap (newest - (counter / o.blockSize : Nat)) ≤ 1) (hz : z.newest = x.newest)
    (hcell : z.cell = Function.update x.cell (counter % o.bufsize) v) : Harmless o counter x z := by
  refine ⟨hz, fun other hother hne => ?_⟩
  simp only [heldFor, hz, hnewest, heldBlock, Option.bind_eq_bind, Option.bind_some,
    decide_eq_true_eq]
  split_ifs with hheld'
  · rw [hcell, Function.update_of_ne (held_slot_ne hcounter hother hne hheld hheld')]
  · rfl

theorem recvDatagram_spec {id : Nat} (h : Wf o x) (hid : id < 2 ^ 16) (data : List β) :
    ∃ out z, x.recvDatagram o id data = .ok (out, z) ∧ Wf o z ∧
      ((∃ fresh, Advances o x (id >>> 2 / o.blockSize : Nat) fresh z) ∨
        ∃ first, Receives o x (id >>> 2) first data out z) := by
  have hcounter : id >>> 2 < 2 ^ 14 := by
    rw [Nat.shiftRight_eq_div_pow]
    omega
  unfold recvDatagram
  split_ifs
  · obtain ⟨fresh, z, hz, hwf, hadv⟩ := advance_spec h hcounter
    refine ⟨some data, z, ?_, hwf, .inl ⟨fresh, hadv⟩⟩
    simp only [observe, hz, ok_bind]
  · obtain ⟨out, z, hz, hwf, hrec⟩ := receive_spec h hid data
    exact ⟨out, z, hz, hwf, .inr ⟨_, hrec⟩⟩

theorem Receives.newest_ne {first : Bool} {data : List β} {out : Option (List β)}
    (h : Receives o x counter first data out z) : z.newest ≠ none := by
  cases h with
  | late hadv => exact hadv.newest_ne
  | meets hadv hnewest _ => exact hnewest ▸ hadv.newest_ne

theorem Advances.harmless_iff {fresh : Bool} {newest : Int} (hnewest : x.newest = some newest)
    (hadv : Advances o x (counter / o.blockSize : Nat) fresh y) :
    Harmless o counter x y ↔ BlockIsLate o x counter := by
  rcases hadv.late_or_moved hnewest with ⟨rfl, hlate, -⟩ | ⟨hnot, hmoved⟩
  · exact iff_of_true (harmless_refl counter y) hlate
  · exact iff_of_false (fun hsame => hmoved hsame.1) hnot

theorem Receives.harmless_iff {first : Bool} {data : List β} {out : Option (List β)} {newest : Int}
    (hcounter : counter < 2 ^ 14) (hnewest : x.newest = some newest)
    (h : Receives o x counter first data out z) :
    Harmless o counter x z ↔ BlockIsLate o x counter := by
  cases h with
  | late hadv => exact hadv.harmless_iff hnewest
  | meets hadv hz hcell =>
    rcases hadv.late_or_moved hnewest with ⟨rfl, hlate, hheld⟩ | ⟨hnot, hmoved⟩
    · exact iff_of_true (harmless_of_cell hcounter hnewest (hheld rfl) hz hcell) hlate
    · exact iff_of_false (fun hsame => hmoved (hz ▸ hsame.1)) hnot

end RotatingBuffer

/-! ## Any datagrams at all -/

open RotatingBuffer

/-- How far a counter is behind the newest one. -/
def behind (newest counter : Nat) : Nat := (newest + 2 ^ 14 - counter) % 2 ^ 14

/-- A buffer, and the newest counter that has arrived: one that is the reorder limit or more
behind the newest so far has jumped forward. -/
structure Listener (β : Type) where
  buf : RotatingBuffer β := {}
  newest : Option Nat := none

namespace Listener

variable {β : Type} {o : DatagramOptions}

/-- The newest counter once this one has arrived. -/
def later (o : DatagramOptions) (counter : Nat) : Option Nat → Nat
  | none => counter
  | some newest => if behind newest counter < o.reorderLimit then newest else counter

def step (o : DatagramOptions) (s : Listener β) (input : Nat × List β) : Except Fault (Listener β) := do
  let result ← s.buf.recvDatagram o input.1 input.2
  .ok { buf := result.2, newest := some (later o (input.1 >>> 2) s.newest) }

/-- Ids have 16 bits, and there is no other condition on what arrives. -/
def machine (β : Type) (o : DatagramOptions) : Machine (Listener β) (Nat × List β) Fault where
  initial s := s = {}
  enabled _ input := input.1 < 2 ^ 16
  step := step o

theorem step_ok {s : Listener β} {input : Nat × List β} {out : Option (List β)}
    {z : RotatingBuffer β} (h : s.buf.recvDatagram o input.1 input.2 = .ok (out, z)) :
    step o s input = .ok { buf := z, newest := some (later o (input.1 >>> 2) s.newest) } := by
  rw [step, h, ok_bind]

structure Inv (o : DatagramOptions) (s : Listener β) : Prop where
  wf : Wf o s.buf
  newest : s.newest ≠ none → s.buf.newest ≠ none

theorem inductive_inv : (machine β o).Inductive (Inv o) where
  initial := by
    rintro _ rfl
    exact ⟨wf_empty, by simp⟩
  step s input h hid := by
    obtain ⟨out, z, hz, hwf, hspec⟩ := recvDatagram_spec h.wf hid input.2
    refine ⟨_, step_ok hz, hwf, fun _ => ?_⟩
    rcases hspec with ⟨fresh, hadv⟩ | ⟨first, hrec⟩
    · exact hadv.newest_ne
    · exact hrec.newest_ne

/-- A datagram that is fewer than the reorder limit behind the newest one leaves the newest block
and the other datagrams' pieces alone if, and only if, its block is one that is held or late. -/
theorem late_datagram_harmless_iff {s : Listener β} {newest id : Nat}
    (h : (machine β o).Reachable s) (hnewest : s.newest = some newest) (hid : id < 2 ^ 16)
    (hbehind : behind newest (id >>> 2) < o.reorderLimit) (data : List β) :
    ∃ t, step o s (id, data) = .ok t ∧ t.newest = some newest ∧
      (Harmless o (id >>> 2) s.buf t.buf ↔ BlockIsLate o s.buf (id >>> 2)) := by
  have hinv := inductive_inv.reachable h
  obtain ⟨block, hblock⟩ := Option.ne_none_iff_exists'.mp (hinv.newest (by simp [hnewest]))
  obtain ⟨out, z, hz, -, hspec⟩ := recvDatagram_spec hinv.wf hid data
  refine ⟨_, step_ok hz, by simp [later, hnewest, hbehind], ?_⟩
  rcases hspec with ⟨fresh, hadv⟩ | ⟨first, hrec⟩
  · exact hadv.harmless_iff hblock
  · refine hrec.harmless_iff ?_ hblock
    rw [Nat.shiftRight_eq_div_pow]
    omega

instance (s : Listener β) (input : Nat × List β) : Decidable ((machine β o).enabled s input) :=
  inferInstanceAs (Decidable (input.1 < 2 ^ 16))

/-- The newest counter and the newest block, and the piece held for one counter. -/
structure View (β : Type) where
  newest : Option Nat
  block : Option Int
  piece : Option (Bool × List β)
  deriving DecidableEq

def view (o : DatagramOptions) (counter : Nat) (s : Listener β) : View β :=
  ⟨s.newest, s.buf.newest, heldFor o s.buf counter⟩

/-- With a limit of 64, a datagram 63 behind the newest one clears the buffer. -/
theorem late_datagram_clears :
    ∃ s t : Listener Nat, (machine Nat smallest).Reachable s ∧
      behind 64 (dgid 1 dgidSplitFirst >>> 2) < smallest.reorderLimit ∧
      step smallest s (dgid 1 dgidSplitFirst, [9]) = .ok t ∧
      view smallest 40 s = ⟨some 64, some 2, some (true, [7])⟩ ∧
      view smallest 40 t = ⟨some 64, some 0, none⟩ := by
  have hrun : ((machine Nat smallest).run {} [(dgid 40 dgidSplitFirst, [7]), (dgid 64 0, [])]).bind
      (fun s => (step smallest s (dgid 1 dgidSplitFirst, [9])).toOption.map fun t =>
        (view smallest 40 s, view smallest 40 t)) =
      some (⟨some 64, some 2, some (true, [7])⟩, ⟨some 64, some 0, none⟩) := by decide +kernel
  obtain ⟨s, hs, hnext⟩ := Option.bind_eq_some_iff.mp hrun
  obtain ⟨t, ht, hview⟩ := Option.map_eq_some_iff.mp hnext
  obtain ⟨hbefore, hafter⟩ := Prod.mk.inj hview
  refine ⟨s, t, (Machine.Reachable.initial rfl).run hs, by decide, ?_, hbefore, hafter⟩
  cases hstep : step smallest s (dgid 1 dgidSplitFirst, [9]) with
  | error _ => simp [hstep, Except.toOption] at ht
  | ok t' => rw [hstep] at ht; exact congrArg _ (Option.some.inj ht)

/-- A datagram of the block before the newest one leaves the piece of another alone. -/
theorem late_datagram_harmless_in_block :
    ∃ s t : Listener Nat, (machine Nat smallest).Reachable s ∧
      view smallest 41 s = ⟨some 64, some 2, some (true, [7])⟩ ∧
      behind 64 (dgid 40 0 >>> 2) < smallest.reorderLimit ∧
      step smallest s (dgid 40 0, []) = .ok t ∧ BlockIsLate smallest s.buf (dgid 40 0 >>> 2) ∧
      Harmless smallest (dgid 40 0 >>> 2) s.buf t.buf ∧
      heldFor smallest t.buf 41 = some (true, [7]) := by
  have hrun : ((machine Nat smallest).run {} [(dgid 41 dgidSplitFirst, [7]), (dgid 64 0, [])]).map
      (view smallest 41) = some ⟨some 64, some 2, some (true, [7])⟩ := by decide +kernel
  obtain ⟨s, hs, hview⟩ := Option.map_eq_some_iff.mp hrun
  obtain ⟨hnewest, hblock, hheld⟩ := View.mk.inj hview
  have hreach := (Machine.Reachable.initial (M := machine Nat smallest) rfl).run hs
  have hlate : BlockIsLate smallest s.buf (dgid 40 0 >>> 2) := ⟨2, hblock, by decide⟩
  obtain ⟨t, ht, -, hiff⟩ :=
    late_datagram_harmless_iff hreach hnewest (by decide : dgid 40 0 < 2 ^ 16) (by decide) []
  have hharmless := hiff.mpr hlate
  exact ⟨s, t, hreach, hview, by decide, ht, hlate, hharmless,
    (hharmless.2 41 (by decide) (by decide)).trans hheld⟩

end Listener

end Libquic
