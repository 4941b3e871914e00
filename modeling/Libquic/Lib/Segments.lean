import Mathlib.Tactic

/-!
# Positions in a list of segments

A scatter-gather queue keeps its elements in segments and remembers a place in them
as a segment index and an offset into that segment. `position` is the number of
elements before that place, which is what the counters kept next to such a queue
count. The lemmas relate the two descriptions; nothing here depends on what the
elements are.
-/
namespace Libquic.Lib.Segments

variable {α : Type*}

/-- The number of elements before offset `off` of segment `i`. -/
def position (segs : List (List α)) (i off : Nat) : Nat := (segs.take i).flatten.length + off

/-- The place `(i, off)` is inside a segment, or at the very end. -/
def Valid (segs : List (List α)) (i off : Nat) : Prop :=
  (∃ seg, segs[i]? = some seg ∧ off < seg.length) ∨ (i = segs.length ∧ off = 0)

@[simp] theorem position_zero (segs : List (List α)) (off : Nat) :
    position segs 0 off = off := by simp [position]

theorem position_cons_succ (seg : List α) (segs : List (List α)) (i off : Nat) :
    position (seg :: segs) (i + 1) off = seg.length + position segs i off := by
  simp [position, Nat.add_assoc]

/-- What lies after a place, read off the segments or off the whole. -/
theorem drop_position (segs : List (List α)) (i off : Nat) :
    segs.flatten.drop (position segs i off) = (segs.drop i).flatten.drop off := by
  have split : segs.flatten = (segs.take i).flatten ++ (segs.drop i).flatten := by
    rw [← List.flatten_append, List.take_append_drop]
  rw [position, split, List.drop_append]
  simp

theorem Valid.index_le {segs : List (List α)} {i off : Nat} (h : Valid segs i off) :
    i ≤ segs.length := by
  obtain ⟨seg, hs, _⟩ | ⟨rfl, _⟩ := h
  · exact (List.getElem?_eq_some_iff.mp hs).1.le
  · exact le_rfl

/-- A place is never past the end. -/
theorem Valid.position_le {segs : List (List α)} {i off : Nat} (h : Valid segs i off) :
    position segs i off ≤ segs.flatten.length := by
  induction segs generalizing i with
  | nil =>
    obtain ⟨seg, hs, _⟩ | ⟨rfl, rfl⟩ := h
    · simp at hs
    · simp
  | cons seg segs ih =>
    cases i with
    | zero =>
      obtain ⟨seg', hs, hlt⟩ | ⟨hz, _⟩ := h
      · simp only [List.getElem?_cons_zero, Option.some.injEq] at hs
        subst hs
        simp only [position_zero, List.flatten_cons, List.length_append]
        omega
      · simp at hz
    | succ i =>
      rw [position_cons_succ, List.flatten_cons, List.length_append]
      refine Nat.add_le_add_left (ih ?_) _
      simpa [Valid] using h

theorem valid_append {segs more : List (List α)} {i off : Nat} (h : Valid segs i off)
    (pos : ∀ seg ∈ more, seg ≠ []) : Valid (segs ++ more) i off := by
  obtain ⟨seg, hs, hlt⟩ | ⟨rfl, rfl⟩ := h
  · refine .inl ⟨seg, ?_, hlt⟩
    rw [List.getElem?_append_left (List.getElem?_eq_some_iff.mp hs).1, hs]
  · cases more with
    | nil => exact .inr (by simp)
    | cons seg more =>
      exact .inl ⟨seg, by simp, List.length_pos_iff.mpr (pos seg (by simp))⟩

theorem position_append {segs more : List (List α)} {i off : Nat} (h : i ≤ segs.length) :
    position (segs ++ more) i off = position segs i off := by
  simp [position, List.take_append_of_le_length h]

/-- Dropping whole segments before a place moves it back by what they held. -/
theorem position_drop (segs : List (List α)) (off : Nat) {k i : Nat} (h : k ≤ i) :
    (segs.take k).flatten.length + position (segs.drop k) (i - k) off = position segs i off := by
  have split : segs.take i = segs.take k ++ (segs.drop k).take (i - k) := by
    rw [← List.take_add, Nat.add_sub_cancel' h]
  rw [position, position, split, List.flatten_append, List.length_append, Nat.add_assoc]

theorem valid_drop {segs : List (List α)} {k i off : Nat} (h : Valid segs i off) (hk : k ≤ i) :
    Valid (segs.drop k) (i - k) off := by
  obtain ⟨seg, hs, hlt⟩ | ⟨hi, h0⟩ := h
  · exact .inl ⟨seg, by rw [List.getElem?_drop, Nat.add_sub_cancel' hk, hs], hlt⟩
  · exact .inr ⟨by rw [List.length_drop, hi], h0⟩

theorem valid_of_drop {segs : List (List α)} {k i off : Nat} (h : Valid (segs.drop k) i off)
    (hk : k ≤ segs.length) : Valid segs (k + i) off := by
  obtain ⟨seg, hs, hlt⟩ | ⟨hi, h0⟩ := h
  · exact .inl ⟨seg, by rwa [List.getElem?_drop] at hs, hlt⟩
  · rw [List.length_drop] at hi
    exact .inr ⟨by omega, h0⟩

/-- Removing a segment that starts at or after a place keeps the place. -/
theorem valid_remove {xs zs : List (List α)} {y : List α} {i off : Nat}
    (h : Valid (xs ++ y :: zs) i off) (hi : i ≤ xs.length) (hoff : 0 < off → i < xs.length)
    (pos : ∀ seg ∈ zs, seg ≠ []) : Valid (xs ++ zs) i off := by
  by_cases hlt : i < xs.length
  · refine valid_append ?_ pos
    obtain ⟨seg, hs, ho⟩ | ⟨he, _⟩ := h
    · rw [List.getElem?_append_left hlt] at hs
      exact .inl ⟨seg, hs, ho⟩
    · rw [List.length_append, List.length_cons] at he
      omega
  · have h0 : off = 0 := by omega
    exact valid_append (.inr ⟨by omega, h0⟩) pos

/-- Cut `n` elements off the first segment. -/
def trim (n : Nat) : List (List α) → List (List α)
  | [] => []
  | seg :: segs => seg.drop n :: segs

/-- The same place after the cut. -/
def trimOffset (n i off : Nat) : Nat := if i = 0 then off - n else off

theorem valid_trim {segs : List (List α)} {n i off : Nat} (h : Valid segs i off)
    (hn : i = 0 → n ≤ off) : Valid (trim n segs) i (trimOffset n i off) := by
  cases segs with
  | nil =>
    obtain ⟨seg, hs, _⟩ | ⟨rfl, rfl⟩ := h
    · simp at hs
    · exact .inr ⟨rfl, by simp [trimOffset]⟩
  | cons seg segs =>
    cases i with
    | zero =>
      obtain ⟨seg', hs, hlt⟩ | ⟨hi, _⟩ := h
      · simp only [List.getElem?_cons_zero, Option.some.injEq] at hs
        subst hs
        refine .inl ⟨seg.drop n, rfl, ?_⟩
        have := hn rfl
        simp only [trimOffset, if_true, List.length_drop]
        omega
      · simp at hi
    | succ i => simpa [Valid, trim, trimOffset] using h

theorem position_trim {segs : List (List α)} {n i off : Nat} (h : Valid segs i off)
    (hn : i = 0 → n ≤ off) (hfront : ∀ seg, segs.head? = some seg → n ≤ seg.length)
    (hempty : segs = [] → n = 0) :
    n + position (trim n segs) i (trimOffset n i off) = position segs i off := by
  cases i with
  | zero => simp [trimOffset, hn rfl]
  | succ i =>
    cases segs with
    | nil => simp [hempty rfl, trim, trimOffset]
    | cons seg segs =>
      have := hfront seg rfl
      simp only [trim, trimOffset, position_cons_succ, List.length_drop, Nat.succ_ne_zero, if_false]
      omega

end Libquic.Lib.Segments
