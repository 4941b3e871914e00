import Libquic.Net.Ip

/-!
# Addresses embedded by a NAT64

`nat64_embed` writes the four bytes of an IPv4 address behind a prefix, past the reserved byte 8,
and `nat64_prefix` finds the prefix again by trying the lengths from the longest to the shortest.
Both are read byte by byte.
-/
namespace Libquic

open Lib

/-! ## Bytes of an address -/

namespace Ipv6

variable {a b : Ipv6} {j m : Nat}

/-- A byte of an address in network order. -/
def byte (a : Ipv6) (j : Nat) : BitVec 8 := if j < 8 then byteOf a.hi j else byteOf a.lo (j - 8)

theorem eq_of_byte (h : ∀ j < 16, a.byte j = b.byte j) : a = b := by
  have hhi : a.hi = b.hi := by
    apply eq_of_byteOf
    intro j hj
    simpa only [byte, if_pos hj] using h j (by omega)
  have hlo : a.lo = b.lo := by
    apply eq_of_byteOf
    intro j hj
    have hj' : ¬ j + 8 < 8 := by omega
    simpa only [byte, if_neg hj', Nat.add_sub_cancel] using h (j + 8) (by omega)
  cases a
  cases b
  simp_all

theorem byte_of_lt (hj : j < 8) : a.byte j = byteOf a.hi j := if_pos hj

theorem byte_of_ge (hj : 8 ≤ j) : a.byte j = byteOf a.lo (j - 8) := if_neg (by omega)

theorem byteOf_zero (j : Nat) : byteOf 0 j = 0 := by
  simp [byteOf]

/-- A mask of whole bytes keeps these and clears the others. -/
theorem byte_toBase (h : a.toBase (8 * m) = .ok b) (hm : m ≤ 16) (hj : j < 16) :
    b.byte j = if j < m then a.byte j else 0 := by
  unfold toBase at h
  by_cases hupper : j < 8
  · simp only [byte_of_lt hupper]
    split_ifs at h with hlow hlt hzero
    · obtain ⟨lo, -, h⟩ := bind_ok h
      cases h
      rw [if_pos (by omega)]
    · cases h
      rw [if_pos (by omega)]
    · cases h
      rw [if_neg (by omega), byteOf_zero]
    · rw [clearLow_eq (k := 64 - 8 * m) _ (by omega) (by omega)] at h
      cases h
      exact byteOf_clearLow (by omega) hupper
  · simp only [byte_of_ge (Nat.not_lt.mp hupper)]
    split_ifs at h with hlow hlt hzero
    · rw [clearLow_eq (k := 64 - 8 * (m - 8)) _ (by omega) (by omega)] at h
      cases h
      rw [byteOf_clearLow (by omega) (by omega)]
      exact if_congr (by omega) rfl rfl
    · cases h
      rw [if_pos (by omega)]
    · cases h
      rw [if_neg (by omega), byteOf_zero]
    · obtain ⟨hi, -, h⟩ := bind_ok h
      cases h
      rw [if_neg (by omega), byteOf_zero]

end Ipv6

/-! ## Embedding -/

/-- The loop of `detail::nat64_ipv4_bytes`, with the reserved byte skipped. -/
def nat64Positions : Nat → Nat → List Nat
  | 0, _ => []
  | n + 1, p =>
    let p := if p = 8 then p + 1 else p
    p :: nat64Positions n (p + 1)

/-- `detail::nat64_ipv4_bytes` -/
def nat64Ipv4Bytes (bits : Nat) : Option (List Nat) :=
  if bits ≠ 32 ∧ bits ≠ 40 ∧ bits ≠ 48 ∧ bits ≠ 56 ∧ bits ≠ 64 ∧ bits ≠ 96 then none
  else some (nat64Positions 4 (bits / 8))

/-- A turn of the loop of `nat64_embed`: byte `i` of the address goes to byte `pos`. -/
def nat64EmbedByte (addr : Ipv4) (a : Ipv6) (pos i : Nat) : Ipv6 :=
  let bits := ((addr.addr >>> (24 - 8 * i)) &&& 0xff).setWidth 64 <<< (56 - 8 * (pos % 8))
  if pos < 8 then { a with hi := a.hi ||| bits } else { a with lo := a.lo ||| bits }

def nat64Embed (range : Ipv6Range) (addr : Ipv4) : Except String Ipv6 :=
  match nat64Ipv4Bytes range.mask with
  | none => .error "NAT64 prefix length must be 32, 40, 48, 56, 64 or 96"
  | some pos => .ok (pos.zipIdx.foldl (fun a p => nat64EmbedByte addr a p.1 p.2) range.ip)

/-- The lengths that `nat64_prefix` tries, in its order. -/
def nat64Lengths : List Nat := [96, 64, 56, 48, 40, 32]

def nat64Prefix (embedded : Ipv6) (addr : Ipv4) : Option Ipv6Range :=
  nat64Lengths.findSome? fun bits =>
    if nat64Embed (embedded.slash bits) addr = .ok embedded then some (embedded.slash bits)
    else none

/-! ## Embedding byte by byte -/

section Embed

variable {addr : Ipv4} {a e : Ipv6} {range : Ipv6Range} {pos i j : Nat}

theorem setWidth_and_ff (x : BitVec 32) :
    (x &&& 0xff).setWidth 64 = (x.setWidth 8).setWidth 64 := by
  apply BitVec.eq_of_toNat_eq
  have hand : x.toNat &&& 255 = x.toNat % 256 := Nat.and_two_pow_sub_one_eq_mod _ 8
  rw [BitVec.toNat_setWidth, BitVec.toNat_and, BitVec.toNat_setWidth, BitVec.toNat_setWidth]
  exact congrArg (· % 2 ^ 64) hand

theorem byte_embedByte (hpos : pos < 16) (hj : j < 16) :
    (nat64EmbedByte addr a pos i).byte j =
      if j = pos then a.byte j ||| addr.byte i else a.byte j := by
  unfold nat64EmbedByte
  rw [setWidth_and_ff]
  by_cases hupper : j < 8 <;> by_cases hword : pos < 8
  · rw [if_pos hword, Ipv6.byte_of_lt hupper, Ipv6.byte_of_lt hupper, Nat.mod_eq_of_lt hword]
    exact byteOf_or _ hword hupper
  · rw [if_neg hword, if_neg (by omega), Ipv6.byte_of_lt hupper, Ipv6.byte_of_lt hupper]
  · rw [if_pos hword, if_neg (by omega), Ipv6.byte_of_ge (by omega), Ipv6.byte_of_ge (by omega)]
  · rw [if_neg hword, Ipv6.byte_of_ge (by omega), Ipv6.byte_of_ge (by omega),
      show pos % 8 = pos - 8 by omega]
    refine (byteOf_or _ (by omega) (by omega)).trans (if_congr ?_ rfl rfl)
    omega

/-- A byte that is no place for the address stays, and one that is takes its byte. -/
theorem byte_foldl (addr : Ipv4) (a : Ipv6) {l : List (Nat × Nat)}
    (hl : ∀ pos ∈ l.map Prod.fst, pos < 16)
    (hnodup : (l.map Prod.fst).Nodup) (hj : j < 16) :
    (j ∉ l.map Prod.fst →
      (l.foldl (fun a p => nat64EmbedByte addr a p.1 p.2) a).byte j = a.byte j) ∧
    ∀ i, (j, i) ∈ l →
      (l.foldl (fun a p => nat64EmbedByte addr a p.1 p.2) a).byte j = a.byte j ||| addr.byte i := by
  induction l generalizing a with
  | nil => simp
  | cons p rest ih =>
    obtain ⟨pos, k⟩ := p
    rw [List.map_cons] at hl hnodup
    obtain ⟨hfresh, hnodup⟩ := List.nodup_cons.mp hnodup
    obtain ⟨hkeep, htake⟩ := ih (nat64EmbedByte addr a pos k)
      (fun q hq => hl q (List.mem_cons_of_mem _ hq)) hnodup
    have hbyte : (nat64EmbedByte addr a pos k).byte j = _ :=
      byte_embedByte (hl _ List.mem_cons_self) hj
    rw [List.foldl_cons]
    constructor
    · intro hout
      rw [List.map_cons, List.mem_cons, not_or] at hout
      rw [hkeep hout.2, hbyte, if_neg hout.1]
    · intro i hi
      rcases List.mem_cons.mp hi with hhead | hrest
      · obtain ⟨rfl, rfl⟩ := Prod.mk.inj hhead
        rw [hkeep hfresh, hbyte, if_pos rfl]
      · have hne : j ≠ pos := by
          rintro rfl
          exact hfresh (List.mem_map.mpr ⟨(j, i), hrest, rfl⟩)
        rw [htake i hrest, hbyte, if_neg hne]

/-- The places for an address behind a prefix of one of the lengths. -/
theorem nat64Ipv4Bytes_of_mem {bits : Nat} (h : bits ∈ nat64Lengths) :
    nat64Ipv4Bytes bits = some (nat64Positions 4 (bits / 8)) := by
  simp only [nat64Lengths, List.mem_cons, List.not_mem_nil, or_false] at h
  rcases h with rfl | rfl | rfl | rfl | rfl | rfl <;> rfl

theorem mem_of_nat64Embed (h : nat64Embed range addr = .ok e) : range.mask ∈ nat64Lengths := by
  by_contra hmem
  have hnone : nat64Ipv4Bytes range.mask = none := by
    apply if_pos
    simp only [nat64Lengths, List.mem_cons, List.not_mem_nil, or_false, not_or] at hmem
    omega
  simp [nat64Embed, hnone] at h

/-- They are different bytes behind the prefix, and the last of them is not used behind a shorter
one. -/
theorem nat64Positions_spec :
    ∀ bits ∈ nat64Lengths, 8 * (bits / 8) = bits ∧ bits / 8 ≤ 16 ∧
      (∀ pos ∈ nat64Positions 4 (bits / 8), bits / 8 ≤ pos ∧ pos < 16) ∧
      (nat64Positions 4 (bits / 8)).Nodup ∧
      ∃ last < 16, (last, 3) ∈ (nat64Positions 4 (bits / 8)).zipIdx ∧
        ∀ bits' ∈ nat64Lengths, bits' < bits → last ∉ nat64Positions 4 (bits' / 8) := by
  decide

/-- What `nat64_embed` returns, byte by byte. -/
theorem byte_nat64Embed (h : nat64Embed range addr = .ok e) (hj : j < 16) :
    (j ∉ nat64Positions 4 (range.mask / 8) → e.byte j = range.ip.byte j) ∧
    ∀ i, (j, i) ∈ (nat64Positions 4 (range.mask / 8)).zipIdx →
      e.byte j = range.ip.byte j ||| addr.byte i := by
  have hmem := mem_of_nat64Embed h
  obtain ⟨-, -, hpos, hnodup, -⟩ := nat64Positions_spec _ hmem
  rw [nat64Embed, nat64Ipv4Bytes_of_mem hmem] at h
  cases h
  have hfst := List.zipIdx_map_fst 0 (nat64Positions 4 (range.mask / 8))
  have hbyte := byte_foldl addr range.ip
    (l := (nat64Positions 4 (range.mask / 8)).zipIdx) (j := j)
    (by rw [hfst]; exact fun pos hp => (hpos pos hp).2) (by rwa [hfst]) hj
  rwa [hfst] at hbyte

/-- Behind its own bytes a range has zeros. -/
theorem Ipv6Range.byte_eq_zero (hmem : range.mask ∈ nat64Lengths) (hj : j < 16)
    (hout : range.mask / 8 ≤ j) : range.ip.byte j = 0 := by
  obtain ⟨hbits, hle, -⟩ := nat64Positions_spec _ hmem
  have hbase := range.based
  rw [← hbits] at hbase
  rw [Ipv6.byte_toBase hbase hle hj, if_neg (by omega)]

theorem byte_slash {bits : Nat} (hmem : bits ∈ nat64Lengths) (hj : j < 16) :
    (e.slash bits).ip.byte j = if j < bits / 8 then e.byte j else 0 := by
  obtain ⟨hbits, hle, -⟩ := nat64Positions_spec _ hmem
  have hbase := e.toBase_slash bits
  rw [← hbits] at hbase
  rw [← hbits, Ipv6.byte_toBase hbase hle hj, hbits]

/-- The prefix is what is in front of the address. -/
theorem slash_of_nat64Embed (h : nat64Embed range addr = .ok e) : e.slash range.mask = range := by
  have hmem := mem_of_nat64Embed h
  obtain ⟨-, -, hpos, -⟩ := nat64Positions_spec _ hmem
  refine Ipv6Range.ext (Ipv6.eq_of_byte fun j hj => ?_) (e.slash_mask _)
  rw [byte_slash hmem hj]
  split_ifs with hlt
  · refine (byte_nat64Embed h hj).1 fun hin => ?_
    have := (hpos j hin).1
    omega
  · exact (range.byte_eq_zero hmem hj (Nat.not_lt.mp hlt)).symm

/-- An address that does not end in 0 is not found behind a longer prefix as well. -/
theorem mask_le_of_nat64Embed {other : Ipv6Range} (haddr : addr.byte 3 ≠ 0)
    (h : nat64Embed range addr = .ok e) (hother : nat64Embed other addr = .ok e) :
    other.mask ≤ range.mask := by
  by_contra hlt
  have hrange := mem_of_nat64Embed h
  have hmem := mem_of_nat64Embed hother
  obtain ⟨-, -, hpos, -, last, hlast, hthird, hout⟩ := nat64Positions_spec _ hmem
  have hbehind := (hpos last (List.fst_mem_of_mem_zipIdx hthird)).1
  have hzero : e.byte last = 0 := by
    rw [(byte_nat64Embed h hlast).1 (hout _ hrange (by omega))]
    apply range.byte_eq_zero hrange hlast
    omega
  have hbyte := (byte_nat64Embed hother hlast).2 3 hthird
  rw [other.byte_eq_zero hmem hlast hbehind, hzero] at hbyte
  exact haddr (by simpa using hbyte.symm)

theorem nat64Embed_inj {other : Ipv6Range} (haddr : addr.byte 3 ≠ 0)
    (h : nat64Embed range addr = .ok e) (hother : nat64Embed other addr = .ok e) :
    other = range := by
  have hmask := le_antisymm (mask_le_of_nat64Embed haddr h hother)
    (mask_le_of_nat64Embed haddr hother h)
  rw [← slash_of_nat64Embed hother, ← slash_of_nat64Embed h, hmask]

theorem nat64Embed_ok (hmem : range.mask ∈ nat64Lengths) (addr : Ipv4) :
    ∃ e, nat64Embed range addr = .ok e := by
  rw [nat64Embed, nat64Ipv4Bytes_of_mem hmem]
  exact ⟨_, rfl⟩

/-! ## Finding the prefix -/

/-- What is found embeds the address. -/
theorem nat64Embed_of_nat64Prefix (h : nat64Prefix e addr = some range) :
    nat64Embed range addr = .ok e := by
  obtain ⟨bits, -, hbits⟩ := List.exists_of_findSome?_eq_some h
  split_ifs at hbits with hembed
  cases hbits
  exact hembed

/-- A prefix is found if there is any. -/
theorem nat64Prefix_ne_none (h : nat64Embed range addr = .ok e) : nat64Prefix e addr ≠ none := by
  intro hnone
  have hmask := List.findSome?_eq_none_iff.mp hnone range.mask (mem_of_nat64Embed h)
  rw [slash_of_nat64Embed h, if_pos h] at hmask
  cases hmask

end Embed

/-- The address that `Endpoint::nat64_address` asks for. -/
def nat64Probe : Ipv4 := Ipv4.ofBytes 192 0 2 1

/-- The prefix is found from the embedded probe, so every address is embedded as the NAT64 does it.
Whatever is found embeds the address it was asked for, and a prefix is found if there is one. -/
theorem nat64_prefix_embed :
    (∀ range : Ipv6Range, range.mask ∈ nat64Lengths →
      ∃ e, nat64Embed range nat64Probe = .ok e ∧ nat64Prefix e nat64Probe = some range ∧
        ∀ found, nat64Prefix e nat64Probe = some found →
          ∀ addr, nat64Embed found addr = nat64Embed range addr) ∧
    ∀ e addr, (∀ found, nat64Prefix e addr = some found → nat64Embed found addr = .ok e) ∧
      (nat64Prefix e addr = none → ∀ range, nat64Embed range addr ≠ .ok e) := by
  refine ⟨fun range hmem => ?_, fun e addr => ⟨fun found => nat64Embed_of_nat64Prefix, ?_⟩⟩
  · obtain ⟨e, he⟩ := nat64Embed_ok hmem nat64Probe
    have hfound : nat64Prefix e nat64Probe = some range := by
      obtain ⟨found, hfound⟩ := Option.ne_none_iff_exists'.mp (nat64Prefix_ne_none he)
      have hembed := nat64Embed_of_nat64Prefix hfound
      rw [hfound, nat64Embed_inj (by decide) he hembed]
    refine ⟨e, he, hfound, fun found hsome addr => ?_⟩
    rw [Option.some.inj (hfound.symm.trans hsome)]
  · exact fun hnone range he => nat64Prefix_ne_none he hnone

/-- The well-known prefix 64:ff9b::/96 -/
theorem nat64_prefix_embed_well_known :
    nat64Embed (Ipv6.slash ⟨0x0064ff9b00000000, 0⟩ 96) nat64Probe =
        .ok ⟨0x0064ff9b00000000, 0xc0000201⟩ ∧
      nat64Prefix ⟨0x0064ff9b00000000, 0xc0000201⟩ nat64Probe =
        some (Ipv6.slash ⟨0x0064ff9b00000000, 0⟩ 96) := by
  have hembed : nat64Embed (Ipv6.slash ⟨0x0064ff9b00000000, 0⟩ 96) nat64Probe =
      .ok ⟨0x0064ff9b00000000, 0xc0000201⟩ := by decide
  obtain ⟨e, he, hfound, -⟩ :=
    nat64_prefix_embed.1 (Ipv6.slash ⟨0x0064ff9b00000000, 0⟩ 96) (by decide)
  obtain rfl := Except.ok.inj (hembed.symm.trans he)
  exact ⟨hembed, hfound⟩

end Libquic
