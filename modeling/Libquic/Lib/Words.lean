import Mathlib.Data.Nat.Bitwise
import Mathlib.Tactic.Ring
import Libquic.Lib.Machine

/-!
# Words of bits

Shifts of fixed-width words as C++ has them, undefined from the width of the word on; blocks of
numbers that agree but for their last bits; and the bytes of a word of 64 bits.
-/
namespace Libquic.Lib

/-! ## Shifts -/

/-- The shift of a word by a negative amount, or by all of its bits or more. -/
structure WideShift where
  width : Nat
  amount : Int
  deriving DecidableEq, Repr

section Shifts

variable {w : Nat}

def shiftLeft (x : BitVec w) (n : Int) : Except WideShift (BitVec w) :=
  if 0 ≤ n ∧ n < w then .ok (x <<< n.toNat) else .error ⟨w, n⟩

def shiftRight (x : BitVec w) (n : Int) : Except WideShift (BitVec w) :=
  if 0 ≤ n ∧ n < w then .ok (x >>> n.toNat) else .error ⟨w, n⟩

/-- `(x >> n) << n` -/
def clearLow (x : BitVec w) (n : Int) : Except WideShift (BitVec w) := do
  let top ← shiftRight x n
  shiftLeft top n

theorem shiftLeft_eq {k : Nat} (x : BitVec w) {n : Int} (hn : n = k) (hk : k < w) :
    shiftLeft x n = .ok (x <<< k) := by
  subst hn
  exact if_pos ⟨by omega, by omega⟩

theorem clearLow_eq {k : Nat} (x : BitVec w) {n : Int} (hn : n = k) (hk : k < w) :
    clearLow x n = .ok ((x >>> k) <<< k) := by
  have hright : shiftRight x n = .ok (x >>> k) := by
    subst hn
    exact if_pos ⟨by omega, by omega⟩
  rw [clearLow, hright, ok_bind, shiftLeft_eq _ hn hk]

end Shifts

/-! ## Blocks -/

section Blocks

variable {k v x : Nat}

/-- The first of the numbers that agree with `v` but for the last `k` bits. -/
def blockBase (k v : Nat) : Nat := v / 2 ^ k * 2 ^ k

/-- The last of them. -/
def blockLast (k v : Nat) : Nat := blockBase k v + (2 ^ k - 1)

/-- A block is an interval. -/
theorem blockBase_eq_iff :
    blockBase k x = blockBase k v ↔ blockBase k v ≤ x ∧ x ≤ blockLast k v := by
  have hpos : 0 < 2 ^ k := Nat.two_pow_pos k
  unfold blockLast blockBase
  rw [Nat.mul_left_inj (by omega), Nat.div_eq_iff hpos, Nat.add_sub_assoc hpos]

theorem blockBase_succ_blockLast : blockBase k (blockLast k v + 1) ≠ blockBase k v := by
  intro h
  have hle := (blockBase_eq_iff.mp h).2
  omega

theorem blockBase_eq_zero (h : v < 2 ^ k) : blockBase k v = 0 := by
  rw [blockBase, Nat.div_eq_of_lt h, Nat.zero_mul]

@[simp] theorem blockBase_zero (v : Nat) : blockBase 0 v = v := by
  simp [blockBase]

theorem blockBase_blockBase (k v : Nat) : blockBase k (blockBase k v) = blockBase k v := by
  unfold blockBase
  rw [Nat.mul_div_cancel _ (Nat.two_pow_pos k)]

@[simp] theorem blockLast_zero (v : Nat) : blockLast 0 v = v := by
  simp [blockLast]

/-- A block inside of the lower word. -/
theorem blockBase_low {n hi lo : Nat} (hk : k ≤ n) :
    blockBase k (hi * 2 ^ n + lo) = hi * 2 ^ n + blockBase k lo := by
  have hsplit : hi * 2 ^ n = hi * 2 ^ (n - k) * 2 ^ k := by
    rw [Nat.mul_assoc, ← Nat.pow_add, Nat.sub_add_cancel hk]
  unfold blockBase
  rw [hsplit, Nat.add_comm, Nat.add_mul_div_right _ _ (Nat.two_pow_pos k), Nat.add_mul,
    Nat.add_comm]

theorem blockLast_low {n hi lo : Nat} (hk : k ≤ n) :
    blockLast k (hi * 2 ^ n + lo) = hi * 2 ^ n + blockLast k lo := by
  rw [blockLast, blockLast, blockBase_low hk, Nat.add_assoc]

/-- A block of whole lower words. -/
theorem blockBase_high {n hi lo : Nat} (hlo : lo < 2 ^ n) :
    blockBase (k + n) (hi * 2 ^ n + lo) = blockBase k hi * 2 ^ n := by
  have hdiv : (hi * 2 ^ n + lo) / 2 ^ n = hi := by
    rw [Nat.add_comm, Nat.add_mul_div_right _ _ (Nat.two_pow_pos n), Nat.div_eq_of_lt hlo,
      Nat.zero_add]
  unfold blockBase
  rw [Nat.add_comm k n, Nat.pow_add, ← Nat.div_div_eq_div_mul, hdiv]
  ring

theorem blockLast_high {n hi lo : Nat} (hlo : lo < 2 ^ n) :
    blockLast (k + n) (hi * 2 ^ n + lo) = blockLast k hi * 2 ^ n + (2 ^ n - 1) := by
  have hpos : 0 < 2 ^ n := Nat.two_pow_pos n
  have hpos' : 0 < 2 ^ k := Nat.two_pow_pos k
  have hle : 2 ^ n ≤ 2 ^ k * 2 ^ n := Nat.le_mul_of_pos_left _ hpos'
  rw [blockLast, blockLast, blockBase_high hlo, Nat.add_mul, Nat.sub_mul, Nat.pow_add, Nat.one_mul]
  omega

variable {w : Nat}

theorem toNat_clearLow (x : BitVec w) (k : Nat) :
    ((x >>> k) <<< k).toNat = blockBase k x.toNat := by
  have hlt : x.toNat / 2 ^ k * 2 ^ k < 2 ^ w :=
    Nat.lt_of_le_of_lt (Nat.div_mul_le_self _ _) x.isLt
  rw [BitVec.toNat_shiftLeft, BitVec.toNat_ushiftRight, Nat.shiftRight_eq_div_pow,
    Nat.shiftLeft_eq, Nat.mod_eq_of_lt hlt]
  rfl

theorem toNat_ones (hk : k < w) : ((1#w <<< k) - 1).toNat = 2 ^ k - 1 := by
  have hpos : 0 < 2 ^ k := Nat.two_pow_pos k
  have hlt : 2 ^ k < 2 ^ w := Nat.pow_lt_pow_right (by decide) hk
  have hbit : (1#w <<< k).toNat = 2 ^ k := by
    rw [BitVec.toNat_shiftLeft, BitVec.toNat_one (by omega), Nat.shiftLeft_eq, Nat.one_mul,
      Nat.mod_eq_of_lt hlt]
  have hone : (1 : BitVec w).toNat = 1 := BitVec.toNat_one (by omega)
  rw [BitVec.toNat_sub, hbit, hone,
    show 2 ^ w - 1 + 2 ^ k = 2 ^ k - 1 + 2 ^ w by omega, Nat.add_mod_right,
    Nat.mod_eq_of_lt (by omega)]

/-- Setting the last bits of a word that ends in zeros. -/
theorem toNat_or_ones {y : BitVec w} (hk : k < w) (hy : y.toNat = blockBase k v) :
    (y ||| ((1#w <<< k) - 1)).toNat = blockLast k v := by
  have hpos : 0 < 2 ^ k := Nat.two_pow_pos k
  rw [BitVec.toNat_or, hy, toNat_ones hk, blockLast, blockBase, Nat.mul_comm,
    Nat.two_pow_add_eq_or_of_lt (by omega)]

end Blocks

/-! ## Address spaces -/

/-- Addresses of `w` bits, each with the one after it. -/
structure AddressSpace (α : Type) (w : Nat) where
  val : α → Nat
  next : α → Option α
  max : α
  val_lt : ∀ a, val a < 2 ^ w
  val_inj : ∀ {a b}, val a = val b → a = b
  next_none : ∀ {a}, next a = none → a = max
  next_some : ∀ {a b}, next a = some b → val b = val a + 1

namespace AddressSpace

variable {α : Type} {w k v : Nat} (S : AddressSpace α w) {base last : α}

/-- From `base` to `last` is what `contains` accepts, and nothing follows `last` in there. -/
structure Spans [LE α] (contains : α → Except WideShift Bool) (base last : α) : Prop where
  contains_iff : ∀ a, contains a = .ok true ↔ base ≤ a ∧ a ≤ last
  ends : last = S.max ∨ ∃ a, S.next last = some a ∧ contains a = .ok false

/-- Addresses have the same base if they are in the same block. -/
theorem same_base [DecidableEq α] {toBase : α → Except WideShift α}
    (hbase : ∀ a, ∃ b, toBase a = .ok b ∧ S.val b = blockBase k (S.val a)) (a c : α) :
    (do
      let x ← toBase a
      let y ← toBase c
      .ok (x == y) : Except WideShift Bool) =
      .ok (decide (blockBase k (S.val a) = blockBase k (S.val c))) := by
  obtain ⟨x, hx, hval⟩ := hbase a
  obtain ⟨y, hy, hval'⟩ := hbase c
  rw [hx, ok_bind, hy, ok_bind, ← hval, ← hval']
  refine congrArg _ (Bool.eq_iff_iff.mpr ?_)
  rw [beq_iff_eq, decide_eq_true_iff]
  exact ⟨fun h => h ▸ rfl, S.val_inj⟩

/-- A block spans the addresses from its first to its last. -/
theorem spans_block [LE α] (hle : ∀ a b, S.val a ≤ S.val b ↔ a ≤ b)
    {contains : α → Except WideShift Bool}
    (hcontains : ∀ a, contains a = .ok (decide (blockBase k (S.val a) = blockBase k v)))
    (hbase : S.val base = blockBase k v) (hlast : S.val last = blockLast k v) :
    S.Spans contains base last where
  contains_iff a := by
    rw [hcontains, Except.ok.injEq, decide_eq_true_iff, blockBase_eq_iff, ← hbase, ← hlast, hle,
      hle]
  ends := by
    cases hnext : S.next last with
    | none => exact .inl (S.next_none hnext)
    | some a =>
      have hout : blockBase k (S.val a) ≠ blockBase k v := by
        rw [S.next_some hnext, hlast]
        exact blockBase_succ_blockLast
      exact .inr ⟨a, rfl, by rw [hcontains, decide_eq_false hout]⟩

end AddressSpace

/-! ## Bytes -/

section Bytes

variable {x y : BitVec 64} {i j m : Nat}

/-- A byte of a word, counted from the most significant one. -/
def byteOf (x : BitVec 64) (j : Nat) : BitVec 8 := (x >>> (56 - 8 * j)).setWidth 8

theorem getLsbD_byteOf (x : BitVec 64) (j n : Nat) :
    (byteOf x j).getLsbD n = (decide (n < 8) && x.getLsbD (56 - 8 * j + n)) := by
  simp [byteOf]

/-- A word is its bytes. -/
theorem eq_of_byteOf (h : ∀ j < 8, byteOf x j = byteOf y j) : x = y := by
  apply BitVec.eq_of_getLsbD_eq
  intro n hn
  have hbyte := congrArg (fun b => b.getLsbD (n % 8)) (h (7 - n / 8) (by omega))
  have hpos : 56 - 8 * (7 - n / 8) + n % 8 = n := by omega
  have hlt : n % 8 < 8 := by omega
  simpa only [getLsbD_byteOf, hpos, hlt, decide_true, Bool.true_and] using hbyte

theorem byteOf_or (b : BitVec 8) (hi : i < 8) (hj : j < 8) :
    byteOf (x ||| b.setWidth 64 <<< (56 - 8 * i)) j =
      if j = i then byteOf x j ||| b else byteOf x j := by
  apply BitVec.eq_of_getLsbD_eq
  intro n hn
  have hlt : 56 - 8 * j + n < 64 := by omega
  by_cases h : j = i
  · subst h
    simp only [getLsbD_byteOf, BitVec.getLsbD_or, BitVec.getLsbD_shiftLeft,
      BitVec.getLsbD_setWidth, hn, hlt, if_true]
    grind
  · have hout : 56 - 8 * j + n < 56 - 8 * i ∨ 8 ≤ 56 - 8 * j + n - (56 - 8 * i) := by omega
    simp only [getLsbD_byteOf, BitVec.getLsbD_or, BitVec.getLsbD_shiftLeft,
      BitVec.getLsbD_setWidth, hn, hlt, if_neg h]
    rcases hout with hout | hout
    · simp [hout]
    · simp [BitVec.getLsbD_of_ge b _ hout]

theorem byteOf_clearLow (hm : m ≤ 8) (hj : j < 8) :
    byteOf ((x >>> (64 - 8 * m)) <<< (64 - 8 * m)) j = if j < m then byteOf x j else 0 := by
  apply BitVec.eq_of_getLsbD_eq
  intro n hn
  have hlt : 56 - 8 * j + n < 64 := by omega
  by_cases h : j < m
  · have hge : ¬ 56 - 8 * j + n < 64 - 8 * m := by omega
    have hpos : 64 - 8 * m + (56 - 8 * j + n - (64 - 8 * m)) = 56 - 8 * j + n := by omega
    simp only [getLsbD_byteOf, BitVec.getLsbD_shiftLeft, BitVec.getLsbD_ushiftRight, hn, hlt, hge,
      hpos, if_pos h, decide_true, decide_false, Bool.not_false, Bool.true_and]
  · have hlow : 56 - 8 * j + n < 64 - 8 * m := by omega
    simp only [getLsbD_byteOf, BitVec.getLsbD_shiftLeft, hlow, if_neg h, decide_true,
      Bool.not_true, Bool.and_false, Bool.false_and]
    exact BitVec.getLsbD_zero.symm

end Bytes

end Libquic.Lib
