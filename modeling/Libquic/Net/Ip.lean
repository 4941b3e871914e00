import Libquic.Lib.Words

/-!
# Addresses and ranges of addresses

`ipv4` and `ipv6` of `ip.hpp` with the ranges over them. Addresses are words in host order, and a
shift that C++ leaves undefined is an error. A range is the block of addresses that agree with its
own but for the bits after the mask.
-/
namespace Libquic

open Lib

/-- `detail::increment_will_overflow` -/
def incrementWillOverflow {w : Nat} (val : BitVec w) : Bool := BitVec.allOnes w == val

theorem incrementWillOverflow_iff {w : Nat} (val : BitVec w) :
    incrementWillOverflow val = true ↔ val.toNat + 1 = 2 ^ w := by
  have hpos : 0 < 2 ^ w := Nat.two_pow_pos w
  rw [incrementWillOverflow, beq_iff_eq, ← BitVec.toNat_inj, BitVec.toNat_allOnes]
  omega

theorem toNat_add_one {w : Nat} {val : BitVec w} (hw : 0 < w)
    (h : ¬ incrementWillOverflow val = true) : (val + 1).toNat = val.toNat + 1 := by
  have hlt := val.isLt
  have hone : (1 : BitVec w).toNat = 1 := BitVec.toNat_one hw
  rw [incrementWillOverflow_iff] at h
  rw [BitVec.toNat_add, hone, Nat.mod_eq_of_lt (by omega)]

structure Ipv4 where
  addr : BitVec 32 := 0
  deriving DecidableEq, Repr

structure Ipv6 where
  hi : BitVec 64 := 0
  lo : BitVec 64 := 0
  deriving DecidableEq, Repr

/-! ## IPv4 -/

namespace Ipv4

/-- `ipv4(a, b, c, d)` -/
def ofBytes (a b c d : BitVec 8) : Ipv4 :=
  ⟨a.setWidth 32 <<< 24 ||| b.setWidth 32 <<< 16 ||| c.setWidth 32 <<< 8 ||| d.setWidth 32⟩

/-- A byte of an address in network order. -/
def byte (a : Ipv4) (i : Nat) : BitVec 8 := (a.addr >>> (24 - 8 * i)).setWidth 8

theorem ofBytes_byte (a : Ipv4) : ofBytes (a.byte 0) (a.byte 1) (a.byte 2) (a.byte 3) = a := by
  obtain ⟨addr⟩ := a
  refine congrArg Ipv4.mk (BitVec.eq_of_getLsbD_eq fun i hi => ?_)
  simp only [byte, BitVec.getLsbD_or, BitVec.getLsbD_shiftLeft, BitVec.getLsbD_setWidth,
    BitVec.getLsbD_ushiftRight]
  grind

def nextIp (a : Ipv4) : Option Ipv4 :=
  if !incrementWillOverflow a.addr then some ⟨a.addr + 1⟩ else none

instance : LE Ipv4 := ⟨fun a b => a.addr ≤ b.addr⟩

def toBase (mask : Nat) (a : Ipv4) : Except WideShift Ipv4 :=
  if mask = 0 then .ok {}
  else if mask < 32 then do
    let addr ← clearLow a.addr (32 - mask)
    .ok ⟨addr⟩
  else .ok a

/-- 255.255.255.255 -/
def max : Ipv4 := ⟨BitVec.allOnes 32⟩

def space : AddressSpace Ipv4 32 where
  val a := a.addr.toNat
  next := nextIp
  max := max
  val_lt a := a.addr.isLt
  val_inj {a b} h := by
    cases a
    cases b
    exact congrArg Ipv4.mk (BitVec.eq_of_toNat_eq h)
  next_none {a} h := by
    have hover : incrementWillOverflow a.addr = true := by
      by_contra hnot
      simp [nextIp, hnot] at h
    cases a
    exact congrArg Ipv4.mk (beq_iff_eq.mp hover).symm
  next_some {a b} h := by
    unfold nextIp at h
    split_ifs at h with hover
    cases h
    exact toNat_add_one (by decide) (by simpa using hover)

theorem toBase_spec {mask : Nat} (hmask : mask ≤ 32) (a : Ipv4) :
    ∃ b, a.toBase mask = .ok b ∧ space.val b = blockBase (32 - mask) (space.val a) := by
  unfold toBase
  split_ifs with hzero hlt
  · subst hzero
    exact ⟨{}, rfl, (blockBase_eq_zero (space.val_lt a)).symm⟩
  · rw [clearLow_eq (k := 32 - mask) _ (by omega) (by omega)]
    exact ⟨_, rfl, toNat_clearLow _ _⟩
  · obtain rfl : mask = 32 := by omega
    exact ⟨a, rfl, (blockBase_zero _).symm⟩

end Ipv4

/-! ## IPv6 -/

namespace Ipv6

/-- `ipv6(a, b, c, d, e, f, g, h)` -/
def ofWords (a b c d e f g h : BitVec 16) : Ipv6 where
  hi := a.setWidth 64 <<< 48 ||| b.setWidth 64 <<< 32 ||| c.setWidth 64 <<< 16 ||| d.setWidth 64
  lo := e.setWidth 64 <<< 48 ||| f.setWidth 64 <<< 32 ||| g.setWidth 64 <<< 16 ||| h.setWidth 64

/-- Two bytes of a half of an address, in network order. -/
def word (half : BitVec 64) (i : Nat) : BitVec 16 := (half >>> (48 - 16 * i)).setWidth 16

theorem ofWords_word (a : Ipv6) :
    ofWords (word a.hi 0) (word a.hi 1) (word a.hi 2) (word a.hi 3)
      (word a.lo 0) (word a.lo 1) (word a.lo 2) (word a.lo 3) = a := by
  have hhalf : ∀ half : BitVec 64, (word half 0).setWidth 64 <<< 48 |||
      (word half 1).setWidth 64 <<< 32 ||| (word half 2).setWidth 64 <<< 16 |||
      (word half 3).setWidth 64 = half := by
    intro half
    apply BitVec.eq_of_getLsbD_eq
    intro i hi
    simp only [word, BitVec.getLsbD_or, BitVec.getLsbD_shiftLeft, BitVec.getLsbD_setWidth,
      BitVec.getLsbD_ushiftRight]
    grind
  rw [ofWords, hhalf, hhalf]

def nextIp (a : Ipv6) : Option Ipv6 :=
  if !incrementWillOverflow a.lo then some { a with lo := a.lo + 1 }
  else if !incrementWillOverflow a.hi then some { hi := a.hi + 1 }
  else none

/-- `std::tie(hi, lo)` is compared. -/
instance : LE Ipv6 := ⟨fun a b => a.hi < b.hi ∨ a.hi = b.hi ∧ a.lo ≤ b.lo⟩

def toBase (mask : Nat) (a : Ipv6) : Except WideShift Ipv6 :=
  if 64 < mask then do
    let lo ← if mask < 128 then clearLow a.lo (128 - mask) else .ok a.lo
    .ok ⟨a.hi, lo⟩
  else do
    let hi ← if mask = 0 then .ok 0 else clearLow a.hi (64 - mask)
    .ok ⟨hi, 0⟩

/-- All bits are set. -/
def max : Ipv6 := ⟨BitVec.allOnes 64, BitVec.allOnes 64⟩

/-- The address as a number of 128 bits. -/
def val (a : Ipv6) : Nat := a.hi.toNat * 2 ^ 64 + a.lo.toNat

theorem val_le_iff {a b : Ipv6} : a.val ≤ b.val ↔ a ≤ b := by
  have hlo := a.lo.isLt
  have hlo' := b.lo.isLt
  change _ ↔ a.hi < b.hi ∨ a.hi = b.hi ∧ a.lo ≤ b.lo
  rw [BitVec.lt_def, BitVec.le_def, ← BitVec.toNat_inj]
  unfold val
  omega

theorem val_inj {a b : Ipv6} (h : a.val = b.val) : a = b := by
  have hlo := a.lo.isLt
  have hlo' := b.lo.isLt
  unfold val at h
  cases a
  cases b
  simp only [Ipv6.mk.injEq, ← BitVec.toNat_inj] at h ⊢
  omega

def space : AddressSpace Ipv6 128 where
  val := val
  next := nextIp
  max := max
  val_lt a := by
    have hhi := a.hi.isLt
    have hlo := a.lo.isLt
    unfold val
    omega
  val_inj := val_inj
  next_none {a} h := by
    unfold nextIp at h
    split_ifs at h with hlo hhi
    simp only [Bool.not_eq_true, Bool.not_eq_false', incrementWillOverflow, beq_iff_eq] at hlo hhi
    cases a
    simp_all [max]
  next_some {a b} h := by
    unfold nextIp at h
    split_ifs at h with hlo hhi
    · cases h
      have hnext := toNat_add_one (w := 64) (by decide) (by simpa using hlo)
      change a.hi.toNat * 2 ^ 64 + (a.lo + 1).toNat = a.hi.toNat * 2 ^ 64 + a.lo.toNat + 1
      omega
    · cases h
      have hnext := toNat_add_one (w := 64) (by decide) (by simpa using hhi)
      have hfull := (incrementWillOverflow_iff a.lo).mp (by simpa using hlo)
      change (a.hi + 1).toNat * 2 ^ 64 + 0 = a.hi.toNat * 2 ^ 64 + a.lo.toNat + 1
      omega

/-- The mask ends in the upper word or in the lower one. -/
theorem toBase_spec {mask : Nat} (hmask : mask ≤ 128) (a : Ipv6) :
    ∃ b, a.toBase mask = .ok b ∧ b.val = blockBase (128 - mask) a.val := by
  have hlo := a.lo.isLt
  unfold toBase
  split_ifs with hlow hlt hzero
  · rw [clearLow_eq (k := 128 - mask) _ (by omega) (by omega)]
    refine ⟨_, rfl, ?_⟩
    rw [val, val, blockBase_low (by omega), toNat_clearLow]
  · obtain rfl : mask = 128 := by omega
    exact ⟨a, rfl, (blockBase_zero _).symm⟩
  · subst hzero
    exact ⟨⟨0, 0⟩, rfl, (blockBase_eq_zero (space.val_lt a)).symm⟩
  · rw [clearLow_eq (k := 64 - mask) _ (by omega) (by omega)]
    refine ⟨_, rfl, ?_⟩
    rw [show 128 - mask = 64 - mask + 64 by omega, val, val, blockBase_high hlo, toNat_clearLow]
    simp

/-- `to_base` is defined for every mask. -/
theorem toBase_ok (a : Ipv6) (mask : Nat) : ∃ b, a.toBase mask = .ok b := by
  unfold toBase
  split_ifs with hlow hlt hzero
  · rw [clearLow_eq (k := 128 - mask) _ (by omega) (by omega)]
    exact ⟨_, rfl⟩
  · exact ⟨_, rfl⟩
  · exact ⟨_, rfl⟩
  · rw [clearLow_eq (k := 64 - mask) _ (by omega) (by omega)]
    exact ⟨_, rfl⟩

theorem toBase_toBase {mask : Nat} {a b : Ipv6} (h : a.toBase mask = .ok b) :
    b.toBase mask = .ok b := by
  by_cases hmask : mask ≤ 128
  · obtain ⟨b', hb', hval⟩ := toBase_spec hmask a
    obtain rfl := Except.ok.inj (h.symm.trans hb')
    obtain ⟨c, hc, hval'⟩ := toBase_spec hmask b
    rw [hval, blockBase_blockBase, ← hval] at hval'
    rw [hc, val_inj hval']
  · unfold toBase
    rw [if_pos (by omega), if_neg (by omega)]
    rfl

end Ipv6

/-! ## Ranges -/

/-- `detail::masked_ipv4`, the base of `ipv4_range` and `ipv4_net` -/
structure MaskedIpv4 where
  ip : Ipv4
  mask : Nat
  deriving DecidableEq, Repr

/-- `detail::masked_ipv6`, the base of `ipv6_range` and `ipv6_net` -/
structure MaskedIpv6 where
  ip : Ipv6
  mask : Nat
  deriving DecidableEq, Repr

namespace MaskedIpv4

variable {r : MaskedIpv4}

def maxIp (r : MaskedIpv4) : Except WideShift Ipv4 := do
  let b ← r.ip.toBase r.mask
  if r.mask < 32 then do
    let bit ← shiftLeft (1 : BitVec 32) (32 - r.mask)
    .ok ⟨b.addr ||| (bit - 2)⟩
  else .ok b

def broadcast (r : MaskedIpv4) : Except WideShift Ipv4 := do
  let b ← r.ip.toBase r.mask
  if r.mask < 32 then do
    let bit ← shiftLeft (1 : BitVec 32) (32 - r.mask)
    .ok ⟨b.addr ||| (bit - 1)⟩
  else .ok b

def contains (r : MaskedIpv4) (other : Ipv4) : Except WideShift Bool := do
  let a ← other.toBase r.mask
  let b ← r.ip.toBase r.mask
  .ok (a == b)

theorem contains_eq (hmask : r.mask ≤ 32) (x : Ipv4) :
    r.contains x = .ok (decide (blockBase (32 - r.mask) (Ipv4.space.val x) =
      blockBase (32 - r.mask) (Ipv4.space.val r.ip))) :=
  Ipv4.space.same_base (Ipv4.toBase_spec hmask) x r.ip

theorem broadcast_spec (hmask : r.mask ≤ 32) (hpos : r.mask ≠ 0) :
    ∃ last, r.broadcast = .ok last ∧
      Ipv4.space.val last = blockLast (32 - r.mask) (Ipv4.space.val r.ip) := by
  obtain ⟨b, hb, hval⟩ := Ipv4.toBase_spec hmask r.ip
  rw [broadcast, hb, ok_bind]
  split_ifs with hlt
  · rw [shiftLeft_eq (k := 32 - r.mask) _ (by omega) (by omega), ok_bind]
    exact ⟨_, rfl, toNat_or_ones (by omega) hval⟩
  · have hfull : 32 - r.mask = 0 := by omega
    rw [hfull, blockBase_zero] at hval
    exact ⟨b, rfl, by rw [hval, hfull, blockLast_zero]⟩

/-- Without a mask, 1 is shifted by all 32 bits. -/
theorem shift_zero (hzero : r.mask = 0) :
    r.broadcast = .error ⟨32, 32⟩ ∧ r.maxIp = .error ⟨32, 32⟩ := by
  simp [broadcast, maxIp, hzero, Ipv4.toBase, shiftLeft]
  exact ⟨rfl, rfl⟩

theorem broadcast_ok_iff (hmask : r.mask ≤ 32) :
    (∃ last, r.broadcast = .ok last) ↔ r.mask ≠ 0 := by
  constructor
  · rintro ⟨last, hlast⟩ hzero
    rw [(shift_zero hzero).1] at hlast
    cases hlast
  · intro hpos
    obtain ⟨last, hlast, -⟩ := broadcast_spec hmask hpos
    exact ⟨last, hlast⟩

theorem maxIp_ok_iff (hmask : r.mask ≤ 32) : (∃ last, r.maxIp = .ok last) ↔ r.mask ≠ 0 := by
  constructor
  · rintro ⟨last, hlast⟩ hzero
    rw [(shift_zero hzero).2] at hlast
    cases hlast
  · intro hpos
    obtain ⟨b, hb, -⟩ := Ipv4.toBase_spec hmask r.ip
    rw [maxIp, hb, ok_bind]
    split_ifs with hlt
    · rw [shiftLeft_eq (k := 32 - r.mask) _ (by omega) (by omega), ok_bind]
      exact ⟨_, rfl⟩
    · exact ⟨b, rfl⟩

theorem spans (hmask : r.mask ≤ 32) :
    ∃ base, r.ip.toBase r.mask = .ok base ∧
      ∀ last, r.broadcast = .ok last → Ipv4.space.Spans r.contains base last := by
  obtain ⟨base, hbase, hval⟩ := Ipv4.toBase_spec hmask r.ip
  refine ⟨base, hbase, fun last hlast => ?_⟩
  obtain ⟨last', hlast', hval'⟩ := broadcast_spec hmask ((broadcast_ok_iff hmask).mp ⟨last, hlast⟩)
  obtain rfl := Except.ok.inj (hlast.symm.trans hlast')
  exact Ipv4.space.spans_block (fun _ _ => Iff.rfl) (contains_eq hmask) hval hval'

end MaskedIpv4

namespace MaskedIpv6

variable {r : MaskedIpv6}

def maxIp (r : MaskedIpv6) : Except WideShift Ipv6 := do
  let b ← r.ip.toBase r.mask
  if 64 < r.mask then do
    let bit ← shiftLeft (1 : BitVec 64) (128 - r.mask)
    .ok ⟨r.ip.hi, b.lo ||| (bit - 1)⟩
  else do
    let bit ← shiftLeft (1 : BitVec 64) (64 - r.mask)
    .ok ⟨b.hi ||| (bit - 1), ~~~0⟩

def contains (r : MaskedIpv6) (other : Ipv6) : Except WideShift Bool := do
  let a ← other.toBase r.mask
  let b ← r.ip.toBase r.mask
  .ok (a == b)

theorem contains_eq (hmask : r.mask ≤ 128) (x : Ipv6) :
    r.contains x = .ok (decide (blockBase (128 - r.mask) (Ipv6.space.val x) =
      blockBase (128 - r.mask) (Ipv6.space.val r.ip))) :=
  Ipv6.space.same_base (Ipv6.toBase_spec hmask) x r.ip

theorem maxIp_spec (hmask : r.mask ≤ 128) (hpos : r.mask ≠ 0) :
    ∃ last, r.maxIp = .ok last ∧
      Ipv6.space.val last = blockLast (128 - r.mask) (Ipv6.space.val r.ip) := by
  obtain ⟨b, hb, hval⟩ := Ipv6.toBase_spec hmask r.ip
  have hlo := r.ip.lo.isLt
  have hblo := b.lo.isLt
  rw [maxIp, hb, ok_bind]
  unfold Ipv6.val at hval
  split_ifs with hlow
  · -- The base ends in the lower word, so the upper one is that of the address.
    rw [shiftLeft_eq (k := 128 - r.mask) _ (by omega) (by omega), ok_bind]
    have hle : blockBase (128 - r.mask) r.ip.lo.toNat ≤ r.ip.lo.toNat := Nat.div_mul_le_self _ _
    rw [blockBase_low (by omega)] at hval
    have hword : b.lo.toNat = blockBase (128 - r.mask) r.ip.lo.toNat := by omega
    refine ⟨_, rfl, ?_⟩
    change r.ip.hi.toNat * 2 ^ 64 + _ = blockLast _ (r.ip.hi.toNat * 2 ^ 64 + r.ip.lo.toNat)
    rw [blockLast_low (by omega)]
    exact congrArg _ (toNat_or_ones (by omega) hword)
  · rw [shiftLeft_eq (k := 64 - r.mask) _ (by omega) (by omega), ok_bind]
    rw [show 128 - r.mask = 64 - r.mask + 64 by omega] at hval ⊢
    rw [blockBase_high hlo] at hval
    have hword : b.hi.toNat = blockBase (64 - r.mask) r.ip.hi.toNat := by omega
    refine ⟨_, rfl, ?_⟩
    change _ = blockLast _ (r.ip.hi.toNat * 2 ^ 64 + r.ip.lo.toNat)
    rw [blockLast_high hlo, ← toNat_or_ones (by omega) hword]
    rfl

/-- Without a mask, 1 is shifted by all 64 bits. -/
theorem shift_zero (hzero : r.mask = 0) : r.maxIp = .error ⟨64, 64⟩ := by
  simp [maxIp, hzero, Ipv6.toBase, shiftLeft]
  rfl

theorem maxIp_ok_iff (hmask : r.mask ≤ 128) : (∃ last, r.maxIp = .ok last) ↔ r.mask ≠ 0 := by
  constructor
  · rintro ⟨last, hlast⟩ hzero
    rw [shift_zero hzero] at hlast
    cases hlast
  · intro hpos
    obtain ⟨last, hlast, -⟩ := maxIp_spec hmask hpos
    exact ⟨last, hlast⟩

theorem spans (hmask : r.mask ≤ 128) :
    ∃ base, r.ip.toBase r.mask = .ok base ∧
      ∀ last, r.maxIp = .ok last → Ipv6.space.Spans r.contains base last := by
  obtain ⟨base, hbase, hval⟩ := Ipv6.toBase_spec hmask r.ip
  refine ⟨base, hbase, fun last hlast => ?_⟩
  obtain ⟨last', hlast', hval'⟩ := maxIp_spec hmask ((maxIp_ok_iff hmask).mp ⟨last, hlast⟩)
  obtain rfl := Except.ok.inj (hlast.symm.trans hlast')
  exact Ipv6.space.spans_block (fun _ _ => Ipv6.val_le_iff) (contains_eq hmask) hval hval'

end MaskedIpv6

/-- `ipv6_range`, whose address is its base -/
structure Ipv6Range extends MaskedIpv6 where
  based : ip.toBase mask = .ok ip
  deriving DecidableEq, Repr

theorem Ipv6Range.ext {r q : Ipv6Range} (hip : r.ip = q.ip) (hmask : r.mask = q.mask) : r = q := by
  obtain ⟨⟨ip, mask⟩, hr⟩ := r
  obtain ⟨⟨ip', mask'⟩, hq⟩ := q
  cases hip
  cases hmask
  rfl

/-- `operator/` -/
def Ipv6.slash (a : Ipv6) (m : Nat) : Ipv6Range :=
  match h : a.toBase m with
  | .ok b => { ip := b, mask := m, based := toBase_toBase h }
  | .error e => absurd (toBase_ok a m) (by rw [h]; simp)

theorem Ipv6.slash_mask (a : Ipv6) (m : Nat) : (a.slash m).mask = m := by
  unfold slash
  split
  · rfl
  · rename_i h
    exact absurd (toBase_ok a m) (by rw [h]; simp)

theorem Ipv6.toBase_slash (a : Ipv6) (m : Nat) : a.toBase m = .ok (a.slash m).ip := by
  unfold slash
  split
  · assumption
  · rename_i h
    exact absurd (toBase_ok a m) (by rw [h]; simp)

/-- For every mask but 0, the addresses of a range are those from its base to `broadcast`, or
`max_ip` for IPv6, and the address after that is outside. For the mask 0 these functions shift a
word by its full width, and only then: `contains` and `to_base` never do. -/
theorem range_spans_iff (r : MaskedIpv4) (r' : MaskedIpv6) (hmask : r.mask ≤ 32)
    (hmask' : r'.mask ≤ 128) :
    (((∃ last, r.broadcast = .ok last) ↔ r.mask ≠ 0) ∧
      ((∃ last, r.maxIp = .ok last) ↔ r.mask ≠ 0) ∧
      (∀ x, ∃ b, r.contains x = .ok b) ∧
      ∃ base, r.ip.toBase r.mask = .ok base ∧
        ∀ last, r.broadcast = .ok last → Ipv4.space.Spans r.contains base last) ∧
    ((∃ last, r'.maxIp = .ok last) ↔ r'.mask ≠ 0) ∧
      (∀ x, ∃ b, r'.contains x = .ok b) ∧
      ∃ base, r'.ip.toBase r'.mask = .ok base ∧
        ∀ last, r'.maxIp = .ok last → Ipv6.space.Spans r'.contains base last := by
  refine ⟨⟨r.broadcast_ok_iff hmask, r.maxIp_ok_iff hmask, fun x => ?_, r.spans hmask⟩,
    r'.maxIp_ok_iff hmask', fun x => ?_, r'.spans hmask'⟩
  · exact ⟨_, r.contains_eq hmask x⟩
  · exact ⟨_, r'.contains_eq hmask' x⟩

/-- 0.0.0.0/0 and ::/0 -/
theorem range_shifts_too_far :
    MaskedIpv4.broadcast ⟨{}, 0⟩ = .error ⟨32, 32⟩ ∧ MaskedIpv4.maxIp ⟨{}, 0⟩ = .error ⟨32, 32⟩ ∧
      MaskedIpv6.maxIp ⟨{}, 0⟩ = .error ⟨64, 64⟩ :=
  ⟨rfl, rfl, rfl⟩

/-- 10.1.2.3/8 and 2001:db8:1::/32 -/
theorem range_spans_iff_examples :
    Ipv4.space.Spans (MaskedIpv4.contains ⟨⟨0x0a010203⟩, 8⟩) ⟨0x0a000000⟩ ⟨0x0affffff⟩ ∧
      Ipv6.space.Spans (MaskedIpv6.contains ⟨⟨0x20010db800010000, 1⟩, 32⟩)
        ⟨0x20010db800000000, 0⟩ ⟨0x20010db8ffffffff, 0xffffffffffffffff⟩ := by
  obtain ⟨⟨-, -, -, base, hbase, hspans⟩, -, -, base', hbase', hspans'⟩ :=
    range_spans_iff ⟨⟨0x0a010203⟩, 8⟩ ⟨⟨0x20010db800010000, 1⟩, 32⟩ (by decide) (by decide)
  obtain rfl : ⟨0x0a000000⟩ = base := Except.ok.inj (.trans (by decide) hbase)
  obtain rfl : ⟨0x20010db800000000, 0⟩ = base' := Except.ok.inj (.trans (by decide) hbase')
  exact ⟨hspans _ (by decide), hspans' _ (by decide)⟩

end Libquic
