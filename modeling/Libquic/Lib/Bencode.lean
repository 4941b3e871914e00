import Mathlib.Data.Nat.Digits.Lemmas
import Mathlib.Tactic

/-!
# Bencoding

Decimal numbers, byte strings and integers as they stand in a bencoded list, with readers that
take one value off the front of the input and return the rest. `ListLib` says what a program may
rely on in a library that writes lists of strings into buffers of a fixed size and reads them
again, and `ListBuffer` is an implementation.
-/
namespace Libquic.Lib.Bencode

/-! ## Decimal numbers -/

def colon : UInt8 := 58

def isDigit (c : UInt8) : Bool := 48 ≤ c.toNat && c.toNat ≤ 57

def digitValue (c : UInt8) : Nat := c.toNat - 48

/-- The character for a digit. -/
def digitChar (d : Nat) : UInt8 := UInt8.ofNat (48 + d)

/-- The value of a string of digits. -/
def decimalValue (chars : List UInt8) : Nat := chars.foldl (fun n c => n * 10 + digitValue c) 0

/-- A number in decimal, without leading zeros. -/
def decimal (n : Nat) : List UInt8 :=
  if n = 0 then [digitChar 0] else (Nat.digits 10 n).reverse.map digitChar

theorem toNat_digitChar {d : Nat} (h : d < 10) : (digitChar d).toNat = 48 + d := by
  have : (digitChar d).toNat = (48 + d) % 256 := UInt8.toNat_ofNat'
  omega

theorem isDigit_digitChar {d : Nat} (h : d < 10) : isDigit (digitChar d) = true := by
  have := toNat_digitChar h
  simp [isDigit]
  omega

theorem digitValue_digitChar {d : Nat} (h : d < 10) : digitValue (digitChar d) = d := by
  have := toNat_digitChar h
  unfold digitValue
  omega

theorem isDigit_of_mem_decimal {n : Nat} {c : UInt8} (h : c ∈ decimal n) : isDigit c = true := by
  unfold decimal at h
  split_ifs at h
  · rw [List.mem_singleton.mp h]
    exact isDigit_digitChar (by decide)
  · obtain ⟨d, hd, rfl⟩ := List.mem_map.mp h
    exact isDigit_digitChar (Nat.digits_lt_base (by decide) (List.mem_reverse.mp hd))

theorem decimal_ne_nil (n : Nat) : decimal n ≠ [] := by
  unfold decimal
  split_ifs with h
  · simp
  · simpa using Nat.digits_ne_nil_iff_ne_zero.mpr h

theorem foldl_digitChar (ds : List Nat) (hds : ∀ d ∈ ds, d < 10) :
    (ds.reverse.map digitChar).foldl (fun n c => n * 10 + digitValue c) 0 = Nat.ofDigits 10 ds := by
  induction ds with
  | nil => rfl
  | cons d rest ih =>
    have hrest := ih fun e he => hds e (by simp [he])
    rw [List.reverse_cons, List.map_append, List.foldl_append, hrest, Nat.ofDigits_cons]
    simp only [List.map_cons, List.map_nil, List.foldl_cons, List.foldl_nil]
    rw [digitValue_digitChar (hds d (by simp))]
    ring

theorem decimalValue_decimal (n : Nat) : decimalValue (decimal n) = n := by
  unfold decimalValue decimal
  split_ifs with h
  · simp [h, digitValue_digitChar]
  · rw [foldl_digitChar _ fun d hd => Nat.digits_lt_base (by decide) hd, Nat.ofDigits_digits]

/-- More than one digit, and the first is not zero. -/
theorem head_decimal {n : Nat} (h : 1 < (decimal n).length) :
    (decimal n).head? ≠ some (digitChar 0) := by
  unfold decimal at h ⊢
  split_ifs at h ⊢ with hn
  · simp at h
  · have hne : Nat.digits 10 n ≠ [] := Nat.digits_ne_nil_iff_ne_zero.mpr hn
    have hlast := Nat.getLast_digit_ne_zero 10 hn
    have hlt : (Nat.digits 10 n).getLast hne < 10 :=
      Nat.digits_lt_base (by decide) (List.getLast_mem hne)
    intro hhead
    rw [List.head?_map, List.head?_reverse, List.getLast?_eq_some_getLast hne, Option.map_some] at hhead
    have hvalue := congrArg UInt8.toNat (Option.some.inj hhead)
    rw [toNat_digitChar hlt, toNat_digitChar (by decide)] at hvalue
    omega

theorem length_decimal_le {n k : Nat} (hk : 0 < k) (h : n < 10 ^ k) : (decimal n).length ≤ k := by
  unfold decimal
  split_ifs
  · exact hk
  · rw [List.length_map, List.length_reverse]
    exact (Nat.digits_length_le_iff (by decide) n).mpr h

/-! ## Reading -/

/-- The digits at the front, and what follows. -/
def spanDigits (input : List UInt8) : List UInt8 × List UInt8 := input.span isDigit

theorem spanDigits_decimal (n : Nat) {c : UInt8} (hc : isDigit c = false) (rest : List UInt8) :
    spanDigits (decimal n ++ c :: rest) = (decimal n, c :: rest) := by
  rw [spanDigits, List.span_eq_takeWhile_dropWhile,
    List.takeWhile_append_of_pos fun a ha => isDigit_of_mem_decimal ha,
    List.dropWhile_append_of_pos fun a ha => isDigit_of_mem_decimal ha]
  simp [hc]

/-- A byte string with its length in front. -/
def string (bytes : List UInt8) : List UInt8 := decimal bytes.length ++ colon :: bytes

def readString (input : List UInt8) : Option (List UInt8 × List UInt8) :=
  match spanDigits input with
  | (digits, c :: rest) =>
    if digits ≠ [] ∧ c = colon ∧ decimalValue digits ≤ rest.length then
      some (rest.take (decimalValue digits), rest.drop (decimalValue digits))
    else none
  | (_, []) => none

theorem readString_string (bytes rest : List UInt8) :
    readString (string bytes ++ rest) = some (bytes, rest) := by
  have hspan : spanDigits (string bytes ++ rest) =
      (decimal bytes.length, colon :: (bytes ++ rest)) := by
    rw [string, List.append_assoc, List.cons_append]
    exact spanDigits_decimal _ (by decide) _
  simp [readString, hspan, decimalValue_decimal, decimal_ne_nil]

/-- The characters `i`, `e`, `l` and `-`. -/
def charI : UInt8 := 105

def charE : UInt8 := 101

def charL : UInt8 := 108

def minus : UInt8 := 45

def integer : Int → List UInt8
  | .ofNat n => charI :: decimal n ++ [charE]
  | .negSucc n => charI :: minus :: decimal (n + 1) ++ [charE]

/-- The digits of an integer, up to the `e`. -/
def readDigits (input : List UInt8) : Option (Nat × List UInt8) :=
  match spanDigits input with
  | (digits, c :: rest) => if digits ≠ [] ∧ c = charE then some (decimalValue digits, rest) else none
  | (_, []) => none

theorem readDigits_decimal (n : Nat) (rest : List UInt8) :
    readDigits (decimal n ++ charE :: rest) = some (n, rest) := by
  simp [readDigits, spanDigits_decimal n (by decide : isDigit charE = false), decimal_ne_nil,
    decimalValue_decimal]

def readInteger : List UInt8 → Option (Int × List UInt8)
  | c :: rest =>
    if c ≠ charI then none
    else if rest.head? = some minus then (readDigits rest.tail).map fun r => (-(r.1 : Int), r.2)
    else (readDigits rest).map fun r => ((r.1 : Int), r.2)
  | [] => none

theorem head?_decimal_ne (n : Nat) {c : UInt8} (hc : isDigit c = false) (rest : List UInt8) :
    (decimal n ++ rest).head? ≠ some c := by
  obtain ⟨d, more, heq⟩ := List.exists_cons_of_ne_nil (decimal_ne_nil n)
  have hdigit : isDigit d = true := isDigit_of_mem_decimal (by rw [heq]; simp : d ∈ decimal n)
  rw [heq]
  rintro ⟨rfl⟩
  simp [hc] at hdigit

theorem readInteger_integer (k : Int) (rest : List UInt8) :
    readInteger (integer k ++ rest) = some (k, rest) := by
  cases k with
  | ofNat n =>
    have hshape : integer (.ofNat n) ++ rest = charI :: (decimal n ++ charE :: rest) := by
      simp [integer]
    rw [hshape, readInteger, if_neg (not_not.mpr rfl), if_neg (head?_decimal_ne n rfl _),
      readDigits_decimal]
    rfl
  | negSucc n =>
    simp [integer, readInteger, readDigits_decimal, Int.negSucc_eq]

/-! ## Lists of strings -/

def list (strings : List (List UInt8)) : List UInt8 := charL :: (strings.flatMap string ++ [charE])

/-- A library for bencoded lists and its rules. -/
structure ListLib (P C ε : Type*) where
  /-- A producer for a buffer of that size. -/
  produce : Nat → Except ε P
  append : List UInt8 → P → Except ε P
  view : P → List UInt8
  /-- A consumer, if the bytes begin a list. -/
  consume : List UInt8 → Option C
  consumeString : C → Option (List UInt8 × C)
  isFinished : C → Bool
  /-- The producer has a buffer of that size, with these strings in the list. -/
  Holds : P → Nat → List (List UInt8) → Prop
  /-- The strings that the consumer has yet to read. -/
  Reads : C → List (List UInt8) → Prop
  produce_ok : ∀ size, 2 ≤ size → ∃ p, produce size = .ok p ∧ Holds p size []
  append_ok : ∀ p size strings item, Holds p size strings →
    (list (strings ++ [item])).length ≤ size →
    ∃ q, append item p = .ok q ∧ Holds q size (strings ++ [item])
  view_eq : ∀ p size strings, Holds p size strings → view p = list strings
  consume_list : ∀ strings, ∃ c, consume (list strings) = some c ∧ Reads c strings
  consumeString_cons : ∀ c item rest, Reads c (item :: rest) →
    ∃ d, consumeString c = some (item, d) ∧ Reads d rest
  isFinished_iff : ∀ c strings, Reads c strings → (isFinished c = true ↔ strings = [])

/-- A buffer with the list so far, less the `e` that is kept behind it. -/
structure ListBuffer where
  capacity : Nat
  written : List UInt8 := [charL]
  deriving DecidableEq, Repr

/-- `full` is the error when there is no room left. What a consumer has yet to read are bytes. -/
def ListBuffer.lib {ε : Type*} (full : ε) : ListLib ListBuffer (List UInt8) ε where
  produce size := if 2 ≤ size then .ok { capacity := size } else .error full
  append item p :=
    if (p.written ++ string item).length + 1 ≤ p.capacity then
      .ok { p with written := p.written ++ string item }
    else .error full
  view p := p.written ++ [charE]
  consume data := if data.head? = some charL then some data.tail else none
  consumeString := readString
  isFinished data := data.head? = some charE
  Holds p size strings := p.capacity = size ∧ p.written = charL :: strings.flatMap string
  Reads data strings := data = strings.flatMap string ++ [charE]
  produce_ok size h := ⟨_, if_pos h, rfl, rfl⟩
  append_ok p size strings item h hroom := by
    obtain ⟨rfl, hwritten⟩ := h
    have hnext : p.written ++ string item = charL :: (strings ++ [item]).flatMap string := by
      simp [hwritten]
    have hlength : (list (strings ++ [item])).length = (p.written ++ string item).length + 1 := by
      rw [list, ← List.cons_append, ← hnext, List.length_append]
      rfl
    exact ⟨_, if_pos (hlength ▸ hroom), rfl, hnext⟩
  view_eq p size strings h := by simp [h.2, list]
  consume_list strings := ⟨_, if_pos rfl, rfl⟩
  consumeString_cons c item rest h := by
    refine ⟨rest.flatMap string ++ [charE], ?_, rfl⟩
    rw [h, List.flatMap_cons, List.append_assoc]
    exact readString_string item _
  isFinished_iff c strings h := by
    subst h
    cases strings with
    | nil => simp
    | cons item rest =>
      have hhead := head?_decimal_ne item.length (c := charE) rfl
        (colon :: (item ++ (rest.flatMap string ++ [charE])))
      simpa [string] using hhead

end Libquic.Lib.Bencode
