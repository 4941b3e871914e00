import Mathlib.Tactic

/-!
# Free lists

Cells of a pool that are linked through an index that each of them holds, up to an index
that stands for the end.
-/
namespace Libquic.Lib.FreeList

variable {next next' : Nat → Nat} {stop head i : Nat} {free : List Nat}

/-- `free` is what is linked from `head`. -/
def Linked (next : Nat → Nat) (stop : Nat) : Nat → List Nat → Prop
  | head, [] => head = stop
  | head, i :: free => head = i ∧ i ≠ stop ∧ Linked next stop (next i) free

namespace Linked

theorem congr (h : Linked next stop head free) (hnext : ∀ j ∈ free, next' j = next j) :
    Linked next' stop head free := by
  induction free generalizing head with
  | nil => exact h
  | cons i free ih =>
    obtain ⟨rfl, hne, hrest⟩ := h
    refine ⟨rfl, hne, ?_⟩
    rw [hnext _ (by simp)]
    exact ih hrest fun j hj => hnext j (by simp [hj])

/-- A cell is put in front. -/
theorem push (h : Linked next stop head free) (hi : i ≠ stop) (hhead : next' i = head)
    (hnext : ∀ j ∈ free, next' j = next j) : Linked next' stop i (i :: free) :=
  ⟨rfl, hi, hhead ▸ h.congr hnext⟩

theorem eq_nil (h : Linked next stop stop free) : free = [] := by
  cases free with
  | nil => rfl
  | cons i free => exact absurd h.1.symm h.2.1

theorem pop (h : Linked next stop head free) (hne : head ≠ stop) :
    ∃ rest, free = head :: rest ∧ Linked next stop (next head) rest := by
  cases free with
  | nil => exact absurd h hne
  | cons i free =>
    obtain ⟨rfl, -, hrest⟩ := h
    exact ⟨free, rfl, hrest⟩

end Linked

end Libquic.Lib.FreeList
