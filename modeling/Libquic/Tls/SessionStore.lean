import Libquic.Stream.Basic
import Mathlib.Data.List.DropRight

/-!
# Session tickets: the default store

The two callbacks of the default store, which keep a deque for each remote, the newest ticket at
its back.
-/
namespace Libquic

/-- `serial` is the number of the call that stored it. A history variable: nothing reads it. -/
structure StoredSession where
  data : Bytes
  expiry : Nat
  serial : Nat
  deriving DecidableEq, Repr

/-- The loop that drops the oldest while there are more than two. -/
def trimTickets : List StoredSession → List StoredSession
  | [] => []
  | e :: mine => if 2 < (e :: mine).length then trimTickets mine else e :: mine

/-- The store callback. -/
def storeTicket (mine : List StoredSession) (e : StoredSession) : List StoredSession :=
  trimTickets mine ++ [e]

/-- The extract callback: expired tickets are dropped from the back until there is one that has
not expired, which is taken. -/
def extractTicket (now : Nat) (mine : List StoredSession) :
    Option StoredSession × List StoredSession :=
  let mine := mine.rdropWhile (·.expiry ≤ now)
  (mine.getLast?, mine.dropLast)

theorem trimTickets_suffix (mine : List StoredSession) : trimTickets mine <:+ mine := by
  fun_induction trimTickets mine with
  | case1 => exact List.suffix_rfl
  | case2 e mine _ ih => exact ih.trans (List.suffix_cons e mine)
  | case3 => exact List.suffix_rfl

theorem length_trimTickets_le (mine : List StoredSession) : (trimTickets mine).length ≤ 2 := by
  fun_induction trimTickets mine <;> grind

theorem length_storeTicket_le (mine : List StoredSession) (e : StoredSession) :
    (storeTicket mine e).length ≤ 3 := by
  have := length_trimTickets_le mine
  simp [storeTicket]
  omega

/-- Either everything had expired, and nothing is left, or the newest that has not expired is
taken and what is older is left. -/
theorem extractTicket_cases (now : Nat) (mine : List StoredSession) :
    (extractTicket now mine = (none, []) ∧ ∀ e ∈ mine, e.expiry ≤ now) ∨
      ∃ kept e dropped, mine = kept ++ e :: dropped ∧ now < e.expiry ∧
        (∀ d ∈ dropped, d.expiry ≤ now) ∧ extractTicket now mine = (some e, kept) := by
  -- From the back, as the callback goes.
  induction mine using List.reverseRecOn with
  | nil => exact .inl ⟨rfl, by simp⟩
  | append_singleton mine last ih =>
    by_cases hlast : last.expiry ≤ now
    · have hskip : extractTicket now (mine ++ [last]) = extractTicket now mine := by
        simp [extractTicket, hlast]
      rw [hskip]
      rcases ih with ⟨hnone, hall⟩ | ⟨kept, e, dropped, rfl, he, hdropped, htaken⟩
      · refine .inl ⟨hnone, fun e he => ?_⟩
        rcases List.mem_append.mp he with he | he
        · exact hall e he
        · exact List.mem_singleton.mp he ▸ hlast
      · refine .inr ⟨kept, e, dropped ++ [last], by simp, he, fun d hd => ?_, htaken⟩
        rcases List.mem_append.mp hd with hd | hd
        · exact hdropped d hd
        · exact List.mem_singleton.mp hd ▸ hlast
    · refine .inr ⟨mine, last, [], rfl, by omega, by simp, ?_⟩
      simp [extractTicket, hlast]

end Libquic
