import Mathlib.Tactic

/-!
# Ordered maps

A map kept as its list of entries in increasing key order, which is how a
`std::map` is iterated.
-/
namespace Libquic.Lib.OrderedMap

variable {α : Type*}

/-- Insert an entry, or replace the value if the key is present. -/
def insert (key : Int) (value : α) : List (Int × α) → List (Int × α)
  | [] => [(key, value)]
  | entry :: rest =>
    if key < entry.1 then (key, value) :: entry :: rest
    else if key = entry.1 then (key, value) :: rest
    else entry :: insert key value rest

def get? (key : Int) (entries : List (Int × α)) : Option α :=
  (entries.find? (·.1 = key)).map Prod.snd

theorem get?_insert (key other : Int) (value : α) (entries : List (Int × α)) :
    get? other (insert key value entries) =
      if other = key then some value else get? other entries := by
  induction entries with
  | nil => grind [insert, get?]
  | cons entry rest ih =>
    unfold insert
    split_ifs <;> grind [get?]

theorem get?_filter (key other : Int) (entries : List (Int × α)) :
    get? other (entries.filter (·.1 ≠ key)) = if other = key then none else get? other entries := by
  induction entries with
  | nil => simp [get?]
  | cons entry rest ih => grind [get?]

/-- A key above all others goes to the end. -/
theorem insert_last {key : Int} {value : α} {entries : List (Int × α)}
    (h : ∀ entry ∈ entries, entry.1 < key) :
    insert key value entries = entries ++ [(key, value)] := by
  induction entries with
  | nil => rfl
  | cons entry rest ih =>
    have hlt : entry.1 < key := h entry (by simp)
    have hrest := ih fun e he => h e (by simp [he])
    rw [insert, if_neg (by omega), if_neg (by omega), hrest, List.cons_append]

theorem mem_of_mem_insert {key : Int} {value : α} {entries : List (Int × α)} {x : Int × α}
    (h : x ∈ insert key value entries) : x = (key, value) ∨ x ∈ entries := by
  induction entries with
  | nil => exact .inl (by simpa [insert] using h)
  | cons entry rest ih =>
    unfold insert at h
    split_ifs at h <;> grind

/-- A new key adds one entry. -/
theorem insert_perm {key : Int} {value : α} {entries : List (Int × α)}
    (h : ∀ entry ∈ entries, entry.1 ≠ key) :
    (insert key value entries).Perm ((key, value) :: entries) := by
  induction entries with
  | nil => exact .refl _
  | cons entry rest ih =>
    have hne : entry.1 ≠ key := h entry (by simp)
    have hrest := ih fun e he => h e (by simp [he])
    unfold insert
    split_ifs with hlt heq
    · exact .refl _
    · exact absurd heq.symm hne
    · exact (hrest.cons entry).trans (.swap ..)

theorem nodup_insert {key : Int} {value : α} {entries : List (Int × α)}
    (h : ∀ entry ∈ entries, entry.1 ≠ key) (hnodup : (entries.map Prod.fst).Nodup) :
    ((insert key value entries).map Prod.fst).Nodup := by
  rw [((insert_perm h).map Prod.fst).nodup_iff, List.map_cons, List.nodup_cons]
  refine ⟨fun hmem => ?_, hnodup⟩
  obtain ⟨entry, hentry, heq⟩ := List.mem_map.mp hmem
  exact h entry hentry heq

/-- Taking an entry out. -/
theorem filter_perm {key : Int} {value : α} {entries : List (Int × α)}
    (hnodup : (entries.map Prod.fst).Nodup) (hmem : (key, value) ∈ entries) :
    entries.Perm ((key, value) :: entries.filter (·.1 ≠ key)) := by
  induction entries with
  | nil => simp at hmem
  | cons entry rest ih =>
    rw [List.map_cons, List.nodup_cons] at hnodup
    rcases List.mem_cons.mp hmem with rfl | hmem
    · have hrest : rest.filter (·.1 ≠ key) = rest := by
        refine List.filter_eq_self.mpr fun e he => decide_eq_true fun heq => hnodup.1 ?_
        exact List.mem_map.mpr ⟨e, he, heq⟩
      rw [List.filter_cons_of_neg (by simp), hrest]
    · have hne : entry.1 ≠ key := by
        rintro rfl
        exact hnodup.1 (List.mem_map.mpr ⟨_, hmem, rfl⟩)
      rw [List.filter_cons_of_pos (by simpa using hne)]
      exact ((ih hnodup.2 hmem).cons entry).trans (.swap ..)

end Libquic.Lib.OrderedMap
