import Mathlib.Data.List.Nodup
import Mathlib.Data.List.Induction

/-!
# First occurrences

`eraseDups` keeps the first occurrence of each element, in order. These are the facts about it for
lists that grow at the end.
-/
namespace Libquic.Lib.EraseDups

variable {α : Type*} [DecidableEq α]

theorem eraseDups_concat (l : List α) (a : α) :
    (l ++ [a]).eraseDups = l.eraseDups ++ if a ∈ l then [] else [a] := by
  rw [List.eraseDups_append]
  split_ifs with h <;> simp [List.removeAll, List.eraseDups_cons, h]

theorem nodup_eraseDups (l : List α) : l.eraseDups.Nodup := by
  induction l using List.reverseRecOn with
  | nil => simp
  | append_singleton l a ih =>
    rw [eraseDups_concat]
    split_ifs with h
    · rwa [List.append_nil]
    · rw [← List.concat_eq_append]
      exact ih.concat (by simpa using h)

end Libquic.Lib.EraseDups
