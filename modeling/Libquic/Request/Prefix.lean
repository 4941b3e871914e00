import Mathlib.Data.List.TakeWhile
import Libquic.Request.Incoming

/-!
# The length prefix, fed in chunks

`prefix_accumulator` reads a length prefix that may be cut anywhere: as long as no colon is seen
the digits wait in `partial` for the next chunk. The contract is stated over all bytes since the
prefix began: up to nine digits wait, a colon behind one to nine digits without a leading zero
gives their value, anything else is refused by the call that reads the first wrong byte. The code
lets a tenth digit through, and asserts on a colon with nothing in front of it.
-/
namespace Libquic

open Lib.Bencode

/-! ## The contract -/

/-- What a call must do, once the bytes since the prefix began are known. -/
inductive PrefixDemand where
  | wait
  | give (n : Nat) (req : Bytes)
  | refuse
  deriving DecidableEq, Repr

/-- At least one digit, and more than one only without a leading zero. -/
def Canonical (digits : Bytes) : Prop :=
  digits ≠ [] ∧ (1 < digits.length → digits.head? ≠ some (digitChar 0))

instance (digits : Bytes) : Decidable (Canonical digits) :=
  inferInstanceAs (Decidable (_ ∧ (_ → _)))

def prefixDemand (seen : Bytes) : PrefixDemand :=
  if 9 < (seen.takeWhile isDigit).length then .refuse
  else
    match seen.dropWhile isDigit with
    | [] => .wait
    | c :: req =>
      if c = colon ∧ Canonical (seen.takeWhile isDigit) then
        .give (decimalValue (seen.takeWhile isDigit)) req
      else .refuse

/-- The call that brought the bytes to `seen` did what the contract asks. A call that waits has
consumed its whole chunk, and `partial` holds all of `seen`; one that gives a size leaves
`partial` empty. -/
def PrefixResult.Meets (seen : Bytes) : PrefixResult → Prop
  | .more digits => prefixDemand seen = .wait ∧ digits = seen
  | .size n digits req => prefixDemand seen = .give n req ∧ digits = []
  | .threw _ _ => prefixDemand seen = .refuse
  | .fault _ => False

instance (seen : Bytes) : (r : PrefixResult) → Decidable (r.Meets seen)
  | .more _ => inferInstanceAs (Decidable (_ ∧ _))
  | .size _ _ _ => inferInstanceAs (Decidable (_ ∧ _))
  | .threw _ _ => inferInstanceAs (Decidable (_ = _))
  | .fault _ => inferInstanceAs (Decidable False)

/-- Every call on these chunks meets the contract, up to the one that ends the prefix. -/
def FeedMeets (digits : Bytes) : List Bytes → Prop
  | [] => True
  | chunk :: chunks =>
    (prefixAccumulator digits chunk).Meets (digits ++ chunk) ∧
      ∀ kept, prefixAccumulator digits chunk = .more kept → FeedMeets kept chunks

/-! ## One call -/

/-- How the code ends once it has read the digits `shown` and found `rest` behind them. -/
def prefixOutcome (shown rest : Bytes) : PrefixResult :=
  if maxReqLenEncoded < shown.length then
    .threw (shown.take (maxReqLenEncoded + 1)) "invalid encoded data length"
  else
    match rest with
    | [] => .more shown
    | c :: req =>
      if c = colon then
        if 1 < shown.length ∧ shown.head? = some (digitChar 0) then
          .threw shown "bt-encoded string size cannot begin with 0"
        else if shown = [] then .fault .assertion
        else .size (decimalValue shown) [] req
      else .threw shown "invalid input: expected bt-encoded data block"

theorem all_digits_concat {digits : Bytes} {c : UInt8} (hdigits : ∀ d ∈ digits, isDigit d = true)
    (hc : isDigit c = true) : ∀ d ∈ digits ++ [c], isDigit d = true := by
  intro d hd
  rcases List.mem_append.mp hd with hd | hd
  · exact hdigits d hd
  · rwa [List.mem_singleton.mp hd]

/-- What one call does, in terms of all the bytes since the prefix began. -/
theorem prefixAccumulator_eq (digits chunk : Bytes) (hdigits : ∀ c ∈ digits, isDigit c = true)
    (hlen : digits.length ≤ maxReqLenEncoded) :
    prefixAccumulator digits chunk =
      prefixOutcome ((digits ++ chunk).takeWhile isDigit)
        ((digits ++ chunk).dropWhile isDigit) := by
  induction chunk generalizing digits with
  | nil =>
    have htake : digits.takeWhile isDigit = digits := List.takeWhile_eq_self_iff.mpr hdigits
    have hdrop : digits.dropWhile isDigit = [] := List.dropWhile_eq_nil_iff.mpr hdigits
    rw [List.append_nil, htake, hdrop, prefixOutcome.eq_def, if_neg (Nat.not_lt.mpr hlen)]
    rfl
  | cons c req ih =>
    unfold prefixAccumulator
    have htake : (digits ++ c :: req).takeWhile isDigit = digits ++ (c :: req).takeWhile isDigit :=
      List.takeWhile_append_of_pos hdigits
    have hdrop : (digits ++ c :: req).dropWhile isDigit = (c :: req).dropWhile isDigit :=
      List.dropWhile_append_of_pos hdigits
    by_cases hc : isDigit c = true
    · rw [if_pos hc]
      by_cases hlong : maxReqLenEncoded < (digits ++ [c]).length
      · -- the digit is one too many, whatever follows
        have hshown : (digits ++ c :: req).takeWhile isDigit =
            (digits ++ [c]) ++ req.takeWhile isDigit := by
          rw [htake, List.takeWhile_cons_of_pos hc]
          simp
        have hexact : maxReqLenEncoded + 1 = (digits ++ [c]).length := by
          simp at hlong ⊢
          omega
        have hover : maxReqLenEncoded < (digits ++ [c] ++ req.takeWhile isDigit).length := by
          rw [List.length_append]
          omega
        rw [if_pos hlong, hshown, prefixOutcome.eq_def, if_pos hover, hexact, List.take_left]
      · rw [if_neg hlong, ih (digits ++ [c]) (all_digits_concat hdigits hc) (by omega),
          List.append_assoc, List.singleton_append]
    · rw [List.takeWhile_cons_of_neg hc, List.append_nil] at htake
      rw [List.dropWhile_cons_of_neg hc] at hdrop
      rw [if_neg hc, htake, hdrop, prefixOutcome.eq_def, if_neg (Nat.not_lt.mpr hlen)]

/-- The inputs on which the call that brings the bytes to `seen` goes wrong: a colon with nothing
in front of it, and ten digits that are kept or taken for a size. -/
def PrefixGap (seen : Bytes) : Prop :=
  seen.head? = some colon ∨
    (seen.takeWhile isDigit).length = 10 ∧
      (seen.dropWhile isDigit = [] ∨
        (seen.dropWhile isDigit).head? = some colon ∧
          (seen.takeWhile isDigit).head? ≠ some (digitChar 0))

instance (seen : Bytes) : Decidable (PrefixGap seen) :=
  inferInstanceAs (Decidable (_ ∨ _ ∧ (_ ∨ _ ∧ ¬ _)))

theorem isDigit_colon : isDigit colon = false := by decide

/-- The bytes are the digits shown and the rest, and a colon comes first only without digits. -/
theorem head_eq_colon_iff (seen : Bytes) :
    seen.head? = some colon ↔
      seen.takeWhile isDigit = [] ∧ (seen.dropWhile isDigit).head? = some colon := by
  cases seen with
  | nil => simp
  | cons c rest =>
    by_cases hc : isDigit c = true
    · rw [List.takeWhile_cons_of_pos hc]
      constructor
      · intro h
        rw [List.head?_cons, Option.some.injEq] at h
        rw [h, isDigit_colon] at hc
        exact absurd hc (by decide)
      · intro h
        exact absurd h.1 (List.cons_ne_nil _ _)
    · rw [List.takeWhile_cons_of_neg hc, List.dropWhile_cons_of_neg hc]
      simp

theorem prefixDemand_long {seen : Bytes} (h : 9 < (seen.takeWhile isDigit).length) :
    prefixDemand seen = .refuse := if_pos h

theorem prefixDemand_nil {seen : Bytes} (h : (seen.takeWhile isDigit).length ≤ 9)
    (hrest : seen.dropWhile isDigit = []) : prefixDemand seen = .wait := by
  rw [prefixDemand, if_neg (by omega), hrest]

theorem prefixDemand_cons {seen req : Bytes} {c : UInt8}
    (h : (seen.takeWhile isDigit).length ≤ 9) (hrest : seen.dropWhile isDigit = c :: req) :
    prefixDemand seen =
      if c = colon ∧ Canonical (seen.takeWhile isDigit) then
        .give (decimalValue (seen.takeWhile isDigit)) req
      else .refuse := by
  rw [prefixDemand, if_neg (by omega), hrest]

theorem prefixOutcome_meets_iff (seen : Bytes) :
    (prefixOutcome (seen.takeWhile isDigit) (seen.dropWhile isDigit)).Meets seen ↔
      ¬ PrefixGap seen := by
  have hsplit := List.takeWhile_append_dropWhile (p := isDigit) (l := seen)
  have hlong := @prefixDemand_long seen
  have hnil := @prefixDemand_nil seen
  have hcons := @prefixDemand_cons seen
  unfold PrefixGap
  rw [head_eq_colon_iff]
  unfold Canonical at hcons
  generalize seen.takeWhile isDigit = shown at *
  generalize seen.dropWhile isDigit = rest at *
  unfold prefixOutcome maxReqLenEncoded
  cases rest with
  | nil =>
    split_ifs <;> simp only [PrefixResult.Meets] <;> grind
  | cons c req =>
    split_ifs <;> simp only [PrefixResult.Meets] <;> grind

theorem meets_iff (digits chunk : Bytes) (hdigits : ∀ c ∈ digits, isDigit c = true)
    (hlen : digits.length ≤ 9) :
    (prefixAccumulator digits chunk).Meets (digits ++ chunk) ↔ ¬ PrefixGap (digits ++ chunk) := by
  rw [prefixAccumulator_eq digits chunk hdigits (by unfold maxReqLenEncoded; omega)]
  exact prefixOutcome_meets_iff _

/-! ## All calls on a string -/

/-- A call that meets the contract and waits leaves at most nine digits in `partial`. -/
theorem waits_of_meets {digits chunk kept : Bytes}
    (hmeets : (prefixAccumulator digits chunk).Meets (digits ++ chunk))
    (hmore : prefixAccumulator digits chunk = .more kept) :
    kept = digits ++ chunk ∧ (∀ c ∈ kept, isDigit c = true) ∧ kept.length ≤ 9 := by
  rw [hmore] at hmeets
  obtain ⟨hwait, rfl⟩ := hmeets
  have hlen : ((digits ++ chunk).takeWhile isDigit).length ≤ 9 := by
    by_contra hlong
    rw [prefixDemand_long (by omega)] at hwait
    exact absurd hwait (by decide)
  have hrest : (digits ++ chunk).dropWhile isDigit = [] := by
    cases hrest : (digits ++ chunk).dropWhile isDigit with
    | nil => rfl
    | cons c req =>
      rw [prefixDemand_cons hlen hrest] at hwait
      split_ifs at hwait
  have hall := List.dropWhile_eq_nil_iff.mp hrest
  exact ⟨rfl, hall, by rwa [List.takeWhile_eq_self_iff.mpr hall] at hlen⟩

/-- Once a prefix is ended without a gap, what follows it makes none. -/
theorem not_prefixGap_append {seen : Bytes} (h : ¬ PrefixGap seen)
    (hend : prefixDemand seen ≠ .wait) (more : Bytes) : ¬ PrefixGap (seen ++ more) := by
  unfold PrefixGap at h ⊢
  rw [head_eq_colon_iff] at h ⊢
  by_cases hall : ∀ c ∈ seen, isDigit c = true
  · -- all digits and not waiting: more than ten of them
    have hdrop := List.dropWhile_eq_nil_iff.mpr hall
    have htake := List.takeWhile_eq_self_iff.mpr hall
    have hlen : 9 < seen.length := by
      by_contra hshort
      exact hend (prefixDemand_nil (by rw [htake]; omega) hdrop)
    rw [htake, hdrop] at h
    rw [List.takeWhile_append_of_pos hall]
    grind
  · have hne : seen.dropWhile isDigit ≠ [] := fun h => hall (List.dropWhile_eq_nil_iff.mp h)
    have hlt : (seen.takeWhile isDigit).length ≠ seen.length := by
      intro heq
      have := congrArg List.length (List.takeWhile_append_dropWhile (p := isDigit) (l := seen))
      rw [List.length_append] at this
      exact hne (List.eq_nil_of_length_eq_zero (by omega))
    have htake : (seen ++ more).takeWhile isDigit = seen.takeWhile isDigit := by
      rw [List.takeWhile_append, if_neg hlt]
    have hdrop : (seen ++ more).dropWhile isDigit = seen.dropWhile isDigit ++ more := by
      rw [List.dropWhile_append, if_neg (by simpa using hne)]
    rw [htake, hdrop]
    cases hrest : seen.dropWhile isDigit with
    | nil => exact absurd hrest hne
    | cons c req =>
      rw [hrest] at h
      simpa using h

theorem not_prefixGap_digits {digits : Bytes} (hdigits : ∀ c ∈ digits, isDigit c = true)
    (hlen : digits.length ≤ 9) : ¬ PrefixGap digits := by
  unfold PrefixGap
  rw [head_eq_colon_iff, List.takeWhile_eq_self_iff.mpr hdigits,
    List.dropWhile_eq_nil_iff.mpr hdigits]
  rintro (⟨-, hcolon⟩ | ⟨hten, -⟩)
  · simp at hcolon
  · omega

theorem feedMeets_iff (digits : Bytes) (hdigits : ∀ c ∈ digits, isDigit c = true)
    (hlen : digits.length ≤ 9) (chunks : List Bytes) :
    FeedMeets digits chunks ↔ ∀ k, ¬ PrefixGap (digits ++ (chunks.take k).flatten) := by
  induction chunks generalizing digits with
  | nil =>
    refine iff_of_true trivial fun k => ?_
    simpa using not_prefixGap_digits hdigits hlen
  | cons chunk chunks ih =>
    have hcall := meets_iff digits chunk hdigits hlen
    constructor
    · rintro ⟨hmeets, hrest⟩ k
      cases k with
      | zero => simpa using not_prefixGap_digits hdigits hlen
      | succ k =>
        rw [List.take_succ_cons, List.flatten_cons, ← List.append_assoc]
        by_cases hwait : prefixDemand (digits ++ chunk) = .wait
        · -- the call waits, and the next one goes on with all the bytes so far
          cases hresult : prefixAccumulator digits chunk with
          | more kept =>
            obtain ⟨rfl, hkept, hshort⟩ := waits_of_meets hmeets hresult
            exact (ih _ hkept hshort).mp (hrest _ hresult) k
          | size n kept req | threw kept what | fault f =>
            rw [hresult] at hmeets
            simp [PrefixResult.Meets, hwait] at hmeets
        · exact not_prefixGap_append (hcall.mp hmeets) hwait _
    · intro hgap
      have hmeets := hcall.mpr (by simpa using hgap 1)
      refine ⟨hmeets, fun kept hmore => ?_⟩
      obtain ⟨rfl, hkept, hshort⟩ := waits_of_meets hmeets hmore
      refine (ih _ hkept hshort).mpr fun k => ?_
      simpa using hgap (k + 1)

/-- Fed in any chunks, `prefix_accumulator` meets its contract in every call exactly if the bytes
fed up to the end of no chunk make a gap: they do not begin with a colon, no chunk ends right
behind ten digits, and there are no ten digits without a leading zero in front of a colon. -/
theorem prefix_accumulator_meets_iff (chunks : List Bytes) :
    FeedMeets [] chunks ↔ ∀ k, ¬ PrefixGap (chunks.take k).flatten := by
  simpa using feedMeets_iff [] (by simp) (by simp) chunks

/-- `"1234567890:"` is taken for a size, its ten digits alone wait for more, and a colon without
digits fails an assertion. -/
theorem prefix_accumulator_gaps :
    prefixAccumulator [] [49, 50, 51, 52, 53, 54, 55, 56, 57, 48, 58] = .size 1234567890 [] [] ∧
      prefixDemand [49, 50, 51, 52, 53, 54, 55, 56, 57, 48, 58] = .refuse ∧
      prefixAccumulator [] [49, 50, 51, 52, 53, 54, 55, 56, 57, 48] =
        .more [49, 50, 51, 52, 53, 54, 55, 56, 57, 48] ∧
      prefixDemand [49, 50, 51, 52, 53, 54, 55, 56, 57, 48] = .refuse ∧
      prefixAccumulator [] [58] = .fault .assertion := by
  decide

end Libquic
