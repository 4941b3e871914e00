import Mathlib.Tactic

/-!
# Pieces of one length

A list cut into pieces of a given length, of which the last may be shorter. `Uniform` says that a
list of pieces is what such a cut yields, so that the pieces are found again from what they make up
together.
-/
namespace Libquic.Lib.Pieces

variable {α : Type*} {n k : Nat} {l : List α} {ls : List (List α)}

/-- All pieces have length `n`, except that the last may be shorter. None is empty. -/
inductive Uniform (n : Nat) : List (List α) → Prop where
  | last {l : List α} : l ≠ [] → l.length ≤ n → Uniform n [l]
  | cons {l : List α} {ls : List (List α)} : l.length = n → Uniform n ls → Uniform n (l :: ls)

/-- Pieces are taken off the front until nothing is left; `fuel` bounds their number. -/
def cutLoop (n : Nat) : (fuel : Nat) → List α → List (List α)
  | 0, _ => []
  | fuel + 1, l => if l.isEmpty then [] else l.take n :: cutLoop n fuel (l.drop n)

/-- Cuts a list into pieces. There are never more of them than elements. -/
def cut (n : Nat) (l : List α) : List (List α) := cutLoop n l.length l

namespace Uniform

theorem pos (h : Uniform n ls) : 0 < n := by
  induction h with
  | last hne hle => exact (List.length_pos_iff.mpr hne).trans_le hle
  | cons _ _ ih => exact ih

theorem length_pos (h : Uniform n ls) : 0 < ls.length := by
  cases h <;> simp

/-- Full pieces, and one more. -/
theorem concat (h : ∀ l ∈ ls, l.length = n) (hne : l ≠ []) (hle : l.length ≤ n) :
    Uniform n (ls ++ [l]) := by
  induction ls with
  | nil => exact .last hne hle
  | cons x ls ih => exact .cons (h x (by simp)) (ih fun y hy => h y (by simp [hy]))

theorem cutLoop_flatten (h : Uniform n ls) {fuel : Nat} (hfuel : ls.flatten.length ≤ fuel) :
    cutLoop n fuel ls.flatten = ls := by
  have hn := h.pos
  induction h generalizing fuel with
  | @last l hne hle =>
    have hlen := List.length_pos_iff.mpr hne
    obtain ⟨fuel, rfl⟩ : ∃ m, fuel = m + 1 := ⟨fuel - 1, by simp at hfuel; omega⟩
    have htake : l.take n = l := List.take_of_length_le hle
    have hdrop : l.drop n = [] := List.drop_of_length_le hle
    cases fuel <;> simp [cutLoop, hne, htake, hdrop]
  | @cons l ls hlen hrest ih =>
    rw [List.flatten_cons, List.length_append, hlen] at hfuel
    obtain ⟨fuel, rfl⟩ : ∃ m, fuel = m + 1 := ⟨fuel - 1, by omega⟩
    have hne : l ≠ [] := List.length_pos_iff.mp (hlen ▸ hn)
    rw [List.flatten_cons, cutLoop, if_neg (by simp [hne]), List.take_left' hlen,
      List.drop_left' hlen, ih (by omega)]

/-- The pieces are found again. -/
theorem cut_flatten (h : Uniform n ls) : cut n ls.flatten = ls := h.cutLoop_flatten le_rfl

/-- All but the last piece are full. -/
theorem length_take (h : Uniform n ls) (hk : k < ls.length) :
    (ls.take k).flatten.length = k * n := by
  induction h generalizing k with
  | last _ _ =>
    obtain rfl : k = 0 := by simpa using hk
    simp
  | cons hlen _ ih =>
    cases k with
    | zero => simp
    | succ k =>
      have := ih (k := k) (by simpa using hk)
      rw [List.take_succ_cons, List.flatten_cons, List.length_append, hlen, this]
      ring

/-- Some of the pieces are less than all of them. -/
theorem length_take_lt (h : Uniform n ls) (hk : k < ls.length) :
    (ls.take k).flatten.length < ls.flatten.length := by
  induction h generalizing k with
  | last hne _ =>
    obtain rfl : k = 0 := by simpa using hk
    simpa using List.length_pos_iff.mpr hne
  | cons hlen hrest ih =>
    have hpos := hrest.pos
    cases k with
    | zero =>
      rw [List.take_zero, List.flatten_cons, List.length_append, hlen]
      exact Nat.add_pos_left hpos _
    | succ k =>
      have := ih (k := k) (by simpa using hk)
      simpa using this

/-- What fits into one piece is one piece. -/
theorem length_eq_one (h : Uniform n ls) (hle : ls.flatten.length ≤ n) : ls.length = 1 := by
  have hpos := h.length_pos
  by_contra hne
  have hk : 1 < ls.length := by omega
  have hlt := h.length_take_lt hk
  rw [h.length_take hk] at hlt
  omega

theorem flatten_ne_nil (h : Uniform n ls) : ls.flatten ≠ [] := by
  intro hnil
  have hlt := h.length_take_lt h.length_pos
  simp [hnil] at hlt

end Uniform

end Libquic.Lib.Pieces
