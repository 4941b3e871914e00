import Libquic.Lib.Machine
import Libquic.Net.Nat64

/-!
# The prefix of the host's NAT64

`nat64_address` does not ask the system for each peer. It asks once for each network, about a fixed
address, finds the NAT64's prefix from the answer and embeds the peers' addresses itself. The system
learns the prefix some time after the host has joined the network, so that a lookup without an
answer is repeated, but not at once. `network_changed` forgets all of it, the time of the last
lookup included.
-/
namespace Libquic

open Lib

/-- `NAT64_RETRY`, in nanoseconds of the steady clock -/
def nat64Retry : Nat := 2000000000

/-- The NAT64 as the endpoint has it, and the host. -/
structure Nat64Endpoint where
  /-- `_nat64_prefix` -/
  range : Option Ipv6Range := none
  /-- `_nat64_checked` -/
  checked : Nat := 0
  now : Nat
  /-- The NAT64 of the network that the host is on. -/
  network : Ipv4 → Option Ipv6
  /-- The system has learned it. -/
  learned : Bool := false
  /-- `network_changed` has been called since the host joined the network. -/
  told : Bool
  /-- When `nat64_lookup` was called since `network_changed`, the last call first. -/
  lookups : List Nat := []
  /-- The lookups before that, a list for each time between two calls of `network_changed`. -/
  earlier : List (List Nat) := []

namespace Nat64Endpoint

/-- `nat64_lookup` -/
def nat64Lookup (addr : Ipv4) (s : Nat64Endpoint) : Option Ipv6 :=
  if s.learned then s.network addr else none

/-- The part of `nat64_address` that looks for the prefix. -/
def findRange (s : Nat64Endpoint) : Nat64Endpoint :=
  if s.range.isSome then s
  else if s.now - s.checked < nat64Retry then s
  else
    { s with
      checked := s.now
      lookups := s.now :: s.lookups
      range := (s.nat64Lookup nat64Probe).bind (nat64Prefix · nat64Probe) }

/-- `nat64_address`, which throws what `nat64_embed` does. -/
def nat64Address (remote : Ipv4) (s : Nat64Endpoint) :
    Except String (Option Ipv6 × Nat64Endpoint) :=
  let t := s.findRange
  match t.range with
  | none => .ok (none, t)
  | some range => do
    let addr ← nat64Embed range remote
    return (some addr, t)

def networkChanged (s : Nat64Endpoint) : Nat64Endpoint :=
  { s with
    range := none
    checked := 0
    told := true
    lookups := []
    earlier := s.lookups :: s.earlier }

inductive Op where
  | tick (n : Nat)
  /-- The host joins another network. -/
  | join (network : Ipv4 → Option Ipv6)
  | learn
  | networkChanged
  | nat64Address (remote : Ipv4)

def step (s : Nat64Endpoint) : Op → Except String Nat64Endpoint
  | .tick n => .ok { s with now := s.now + n }
  | .join network => .ok { s with network, learned := false, told := false }
  | .learn => .ok { s with learned := true }
  | .networkChanged => .ok s.networkChanged
  | .nat64Address remote => do
    let (_, t) ← s.nat64Address remote
    return t

def machine : Machine Nat64Endpoint Op String where
  initial s := s.range = none ∧ s.checked = 0 ∧ s.lookups = [] ∧ s.earlier = []
  enabled _ _ := True
  step := step

/-! ## Every run -/

variable {s : Nat64Endpoint}

/-- No lookup comes within `NAT64_RETRY` of the one before. -/
def Spaced (lookups : List Nat) : Prop :=
  lookups.Pairwise fun later earlier => earlier + nat64Retry ≤ later

/-- What is known embeds addresses, and embeds the probe as the network does, if that is still the
same. -/
structure Inv (s : Nat64Endpoint) : Prop where
  mask : ∀ range, s.range = some range → range.mask ∈ nat64Lengths
  embeds : s.told = true → ∀ range, s.range = some range →
    ∃ e, s.network nat64Probe = some e ∧ nat64Embed range nat64Probe = .ok e
  checked : s.checked ≤ s.now
  spaced : ∀ l ∈ s.lookups :: s.earlier, Spaced l
  newest : ∀ t ∈ s.lookups, t ≤ s.checked

theorem Inv.findRange (h : Inv s) : Inv s.findRange := by
  unfold Nat64Endpoint.findRange
  split_ifs with hknown hsoon
  · exact h
  · exact h
  · have hfound : ∀ range,
        (s.nat64Lookup nat64Probe).bind (nat64Prefix · nat64Probe) = some range →
        ∃ e, s.network nat64Probe = some e ∧ nat64Embed range nat64Probe = .ok e := by
      intro range hrange
      obtain ⟨e, hlookup, hprefix⟩ := Option.bind_eq_some_iff.mp hrange
      unfold nat64Lookup at hlookup
      split_ifs at hlookup
      exact ⟨e, hlookup, nat64Embed_of_nat64Prefix hprefix⟩
    refine ⟨?_, fun _ => hfound, le_rfl, ?_, ?_⟩
    · intro range hrange
      obtain ⟨e, -, hembed⟩ := hfound range hrange
      exact mem_of_nat64Embed hembed
    · obtain ⟨hlookups, hearlier⟩ := List.forall_mem_cons.mp h.spaced
      refine List.forall_mem_cons.mpr ⟨List.pairwise_cons.mpr ⟨?_, hlookups⟩, hearlier⟩
      intro t ht
      have hle := h.newest t ht
      have hchecked := h.checked
      omega
    · intro t ht
      rcases List.mem_cons.mp ht with rfl | hold
      · exact le_rfl
      · exact (h.newest t hold).trans h.checked

/-- The search does not throw, and its outcome decides the answer. -/
theorem Inv.nat64Address (h : Inv s) (remote : Ipv4) :
    Nat64Endpoint.nat64Address remote s =
      .ok (s.findRange.range.bind fun range => (nat64Embed range remote).toOption,
        s.findRange) := by
  have hfound := h.findRange
  unfold Nat64Endpoint.nat64Address
  dsimp only
  cases hrange : s.findRange.range with
  | none => rfl
  | some range =>
    obtain ⟨addr, haddr⟩ := nat64Embed_ok (hfound.mask range hrange) remote
    simp [haddr, Except.toOption]

theorem inductive_inv : machine.Inductive Inv where
  initial s hs := by
    obtain ⟨hrange, hchecked, hlookups, hearlier⟩ := hs
    constructor <;> simp [hrange, hchecked, hlookups, hearlier, Spaced]
  step s op h _ := by
    cases op with
    | tick n =>
      refine ⟨_, rfl, h.mask, h.embeds, ?_, h.spaced, h.newest⟩
      exact h.checked.trans (Nat.le_add_right ..)
    | join network =>
      refine ⟨_, rfl, h.mask, ?_, h.checked, h.spaced, h.newest⟩
      intro htold
      cases htold
    | learn => exact ⟨_, rfl, h.mask, h.embeds, h.checked, h.spaced, h.newest⟩
    | networkChanged =>
      refine ⟨_, rfl, by simp [networkChanged], by simp [networkChanged], Nat.zero_le _, ?_,
        by simp [networkChanged]⟩
      exact List.forall_mem_cons.mpr ⟨.nil, h.spaced⟩
    | nat64Address remote =>
      refine ⟨s.findRange, ?_, h.findRange⟩
      change Nat64Endpoint.nat64Address remote s >>= _ = _
      rw [h.nat64Address remote]
      rfl

/-- The network embeds addresses behind a prefix. -/
structure Translates (network : Ipv4 → Option Ipv6) (range : Ipv6Range) : Prop where
  mask : range.mask ∈ nat64Lengths
  embeds : ∀ addr, network addr = (nat64Embed range addr).toOption

theorem toOption_eq_some {x : Except String Ipv6} {e : Ipv6} (h : x.toOption = some e) :
    x = .ok e := by
  cases x with
  | error _ => cases h
  | ok a => exact congrArg Except.ok (Option.some.inj h)

theorem findRange_network (s : Nat64Endpoint) :
    s.findRange.network = s.network ∧ s.findRange.told = s.told := by
  unfold findRange
  split_ifs <;> exact ⟨rfl, rfl⟩

/-- The prefix is found from the probe, so what is known is the network's. -/
theorem Inv.range_eq (h : Inv s) (htold : s.told = true) {range found : Ipv6Range}
    (hnetwork : Translates s.network range) (hfound : s.range = some found) : found = range := by
  obtain ⟨e, hprobe, hembed⟩ := h.embeds htold found hfound
  rw [hnetwork.embeds] at hprobe
  exact nat64Embed_inj (by decide) (toOption_eq_some hprobe) hembed

/-- A lookup that is due finds the prefix once the system knows it. -/
theorem findRange_ne_none {range : Ipv6Range} (hnetwork : Translates s.network range)
    (hdue : s.range ≠ none ∨ s.learned = true ∧ s.checked + nat64Retry ≤ s.now) :
    s.findRange.range ≠ none := by
  unfold findRange
  split_ifs with hknown hsoon
  · exact Option.isSome_iff_ne_none.mp hknown
  · rcases hdue with hne | ⟨-, hlate⟩
    · exact hne
    · omega
  · rcases hdue with hne | ⟨hlearned, -⟩
    · exact absurd (Option.isSome_iff_ne_none.mpr hne) hknown
    · obtain ⟨e, he⟩ := nat64Embed_ok hnetwork.mask nat64Probe
      have hlookup : s.nat64Lookup nat64Probe = some e := by
        rw [nat64Lookup, if_pos hlearned, hnetwork.embeds, he]
        rfl
      rw [hlookup]
      exact nat64Prefix_ne_none he

/-- On a network whose NAT64 has a prefix, an endpoint that has been told of the network gives the
addresses that the network has, or none. It gives them as soon as it knows the prefix, or the system
does and the last lookup is long enough ago. Lookups are never closer to each other, unless
`network_changed` was called between them. -/
theorem nat64_address_agrees (h : machine.Reachable s) (htold : s.told = true)
    {range : Ipv6Range} (hnetwork : Translates s.network range) (remote : Ipv4) :
    ∃ result t, s.nat64Address remote = .ok (result, t) ∧
      (result = none ∨ result = s.network remote) ∧
      (s.range ≠ none ∨ s.learned = true ∧ s.checked + nat64Retry ≤ s.now →
        result = s.network remote) ∧
      ∀ l ∈ t.lookups :: t.earlier, Spaced l := by
  have hinv := inductive_inv.reachable h
  have hfound := hinv.findRange
  obtain ⟨hsame, hstill⟩ := s.findRange_network
  have hanswer := hinv.nat64Address remote
  cases hrange : s.findRange.range with
  | none =>
    rw [hrange] at hanswer
    refine ⟨none, _, hanswer, .inl rfl, fun hdue => ?_, hfound.spaced⟩
    exact absurd hrange (findRange_ne_none hnetwork hdue)
  | some found =>
    obtain rfl := hfound.range_eq (hstill.trans htold) (hsame ▸ hnetwork) hrange
    rw [hrange, Option.bind_some, ← hnetwork.embeds] at hanswer
    exact ⟨_, _, hanswer, .inr rfl, fun _ => rfl, hfound.spaced⟩

/-- The system has learned that the NAT64 has the prefix 64:ff9b::/96. -/
theorem nat64_address_agrees_well_known :
    let range := Ipv6.slash ⟨0x0064ff9b00000000, 0⟩ 96
    let s : Nat64Endpoint :=
      { now := 5000000000, told := true, learned := true,
        network := fun addr => (nat64Embed range addr).toOption }
    ∃ t, s.nat64Address (Ipv4.ofBytes 198 51 100 7) =
      .ok (some ⟨0x0064ff9b00000000, 0xc6336407⟩, t) := by
  intro range s
  have hreach : machine.Reachable s := .initial ⟨rfl, rfl, rfl, rfl⟩
  have hnetwork : Translates s.network range := ⟨by decide, fun _ => rfl⟩
  obtain ⟨result, t, hok, -, hdue, -⟩ :=
    nat64_address_agrees hreach rfl hnetwork (Ipv4.ofBytes 198 51 100 7)
  have hlate : s.checked + nat64Retry ≤ s.now := by simp [s, nat64Retry]
  have hembed : s.network (Ipv4.ofBytes 198 51 100 7) =
      some ⟨0x0064ff9b00000000, 0xc6336407⟩ := by decide
  rw [hdue (.inr ⟨rfl, hlate⟩), hembed] at hok
  exact ⟨t, hok⟩

end Nat64Endpoint

end Libquic
