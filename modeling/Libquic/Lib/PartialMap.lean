import Mathlib.Logic.Function.Basic

/-!
# Maps with keys that may be missing

A map is a function to `Option`. The operations are those of `std::unordered_map`, each with one
equation that says what every key has afterwards.
-/
namespace Libquic.Lib.PartialMap

variable {κ ν : Type} [DecidableEq κ]

/-- Sets the value of a key. -/
def assign (m : κ → Option ν) (k : κ) (v : ν) : κ → Option ν := Function.update m k (some v)

/-- Inserts a key unless it is there. -/
def emplace (m : κ → Option ν) (k : κ) (v : ν) : κ → Option ν :=
  match m k with
  | none => assign m k v
  | some _ => m

def erase (m : κ → Option ν) (k : κ) : κ → Option ν := Function.update m k none

/-- Erases the keys of a list one after the other. -/
def eraseAll (m : κ → Option ν) (ks : List κ) : κ → Option ν := ks.foldl erase m

variable (m : κ → Option ν) (k j : κ) (v : ν)

@[simp, grind =] theorem assign_apply : assign m k v j = if j = k then some v else m j :=
  Function.update_apply ..

theorem assign_self : assign m k v k = some v := Function.update_self ..

@[simp, grind =] theorem erase_apply : erase m k j = if j = k then none else m j :=
  Function.update_apply ..

@[simp, grind =] theorem emplace_apply :
    emplace m k v j = if j = k ∧ m k = none then some v else m j := by
  unfold emplace
  cases h : m k <;> simp

@[simp, grind =] theorem eraseAll_apply (ks : List κ) :
    eraseAll m ks j = if j ∈ ks then none else m j := by
  induction ks generalizing m with
  | nil => simp [eraseAll]
  | cons k ks ih =>
    have hstep : eraseAll m (k :: ks) = eraseAll (erase m k) ks := rfl
    rw [hstep, ih]
    grind

/-- Erasing what has just been inserted leaves nothing behind. -/
theorem erase_assign (h : m k = none) : erase (assign m k v) k = m := by
  funext j
  grind

end Libquic.Lib.PartialMap
