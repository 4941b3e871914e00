import Mathlib.Tactic

/-!
# Arrays and moves within them

An array is a list of fixed length. `At mem pos xs` says that it holds `xs` from
position `pos` on. The lemmas say what a write leaves alone, which is all that a proof
about moving parts of an array within it needs.
-/
namespace Libquic.Lib.Memory

variable {α : Type*} {mem data xs ys : List α} {pos p : Nat}

/-- Overwrite the elements from `pos` on. -/
def write (mem : List α) (pos : Nat) (data : List α) : List α :=
  mem.take pos ++ data ++ mem.drop (pos + data.length)

/-- `std::memmove` or `std::copy`: the source is read in full before anything is written. -/
def move (mem : List α) (dst src len : Nat) : List α := write mem dst ((mem.drop src).take len)

/-- The array holds `xs` at `pos`. -/
def At (mem : List α) (pos : Nat) (xs : List α) : Prop :=
  ∀ i (h : i < xs.length), mem[pos + i]? = some xs[i]

theorem length_write (h : pos + data.length ≤ mem.length) :
    (write mem pos data).length = mem.length := by
  simp only [write, List.length_append, List.length_take, List.length_drop]
  omega

/-- A move towards the front stays within the array. -/
theorem length_move {dst src len : Nat} (h : dst ≤ src) :
    (move mem dst src len).length = mem.length := by
  by_cases hsrc : src ≤ mem.length
  · refine length_write ?_
    rw [List.length_take, List.length_drop]
    omega
  · simp only [move, write, List.drop_of_length_le (Nat.le_of_lt (Nat.not_le.mp hsrc)),
      List.take_nil, List.append_nil, List.length_nil, Nat.add_zero, List.take_append_drop]

theorem getElem?_write (h : pos + data.length ≤ mem.length) (j : Nat) :
    (write mem pos data)[j]? =
      if j < pos then mem[j]? else if j < pos + data.length then data[j - pos]? else mem[j]? := by
  have hpos : (mem.take pos).length = pos := by
    rw [List.length_take]
    omega
  rw [write, List.append_assoc]
  split_ifs with h₁ h₂
  · rw [List.getElem?_append_left (by omega), List.getElem?_take_of_lt h₁]
  · rw [List.getElem?_append_right (by omega), hpos, List.getElem?_append_left (by omega)]
  · rw [List.getElem?_append_right (by omega), hpos, List.getElem?_append_right (by omega),
      List.getElem?_drop]
    congr 1
    omega

@[simp] theorem at_nil (mem : List α) (pos : Nat) : At mem pos [] := fun _ h => absurd h (by simp)

theorem at_append : At mem pos (xs ++ ys) ↔ At mem pos xs ∧ At mem (pos + xs.length) ys := by
  constructor
  · intro h
    refine ⟨fun i hi => ?_, fun i hi => ?_⟩
    · rw [h i (by rw [List.length_append]; omega), List.getElem_append_left hi]
    · have := h (xs.length + i) (by rw [List.length_append]; omega)
      rw [← Nat.add_assoc] at this
      rw [this, List.getElem_append_right (by omega)]
      simp
  · rintro ⟨hx, hy⟩ i hi
    by_cases hlt : i < xs.length
    · rw [hx i hlt, List.getElem_append_left hlt]
    · rw [List.length_append] at hi
      have := hy (i - xs.length) (by omega)
      rw [List.getElem_append_right (by omega), ← this]
      congr 1
      omega

theorem at_cons {x : α} : At mem pos (x :: xs) ↔ mem[pos]? = some x ∧ At mem (pos + 1) xs := by
  rw [← List.singleton_append, at_append]
  refine and_congr_left fun _ => ⟨fun h => h 0 (by simp), fun h i hi => ?_⟩
  obtain rfl : i = 0 := by simpa using hi
  exact h

theorem At.getD {x d : α} (h : At mem pos (x :: xs)) : mem.getD pos d = x := by
  rw [List.getD, (at_cons.mp h).1, Option.getD_some]

theorem At.le (h : At mem pos xs) (hx : xs ≠ []) : pos + xs.length ≤ mem.length := by
  have hlen := List.length_pos_iff.mpr hx
  have hlast := h (xs.length - 1) (by omega)
  have := (List.getElem?_eq_some_iff.mp hlast).1
  omega

/-- Reading back. -/
theorem At.read (h : At mem pos xs) : (mem.drop pos).take xs.length = xs := by
  refine List.ext_getElem? fun i => ?_
  rw [List.getElem?_take]
  split_ifs with hi
  · rw [List.getElem?_drop, h i hi, List.getElem?_eq_getElem hi]
  · rw [List.getElem?_eq_none (by omega)]

theorem at_write (h : pos + data.length ≤ mem.length) : At (write mem pos data) pos data := by
  intro i hi
  rw [getElem?_write h, if_neg (by omega), if_pos (by omega), Nat.add_sub_cancel_left,
    List.getElem?_eq_getElem hi]

/-- A write after a region leaves it alone. -/
theorem At.write_after (hx : At mem p xs) (h : pos + data.length ≤ mem.length)
    (hp : p + xs.length ≤ pos) : At (write mem pos data) p xs := by
  intro i hi
  rw [getElem?_write h, if_pos (by omega), hx i hi]

/-- A write before a region leaves it alone. -/
theorem At.write_before (hx : At mem p xs) (h : pos + data.length ≤ mem.length)
    (hp : pos + data.length ≤ p) : At (write mem pos data) p xs := by
  intro i hi
  rw [getElem?_write h, if_neg (by omega), if_neg (by omega), hx i hi]

/-- A write right after what the array starts with extends it. -/
theorem At.extend (hx : At mem 0 xs) (hp : xs.length = pos)
    (h : pos + data.length ≤ mem.length) : At (write mem pos data) 0 (xs ++ data) := by
  rw [at_append]
  refine ⟨hx.write_after h (by omega), ?_⟩
  rw [Nat.zero_add, hp]
  exact at_write h

/-- Writing what is there already changes nothing. -/
theorem At.write_same (hx : At mem pos xs) (h : pos + xs.length ≤ mem.length) :
    write mem pos xs = mem := by
  refine List.ext_getElem? fun j => ?_
  rw [getElem?_write h]
  split_ifs with h₁ h₂
  · rfl
  · have := hx (j - pos) (by omega)
    rw [List.getElem?_eq_getElem (by omega), ← this]
    congr 1
    omega
  · rfl

/-- A region moved to another place. -/
theorem At.move_eq (hx : At mem p xs) : move mem pos p xs.length = write mem pos xs := by
  rw [move, hx.read]

end Libquic.Lib.Memory
