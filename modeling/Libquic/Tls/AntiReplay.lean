import Mathlib.Tactic.SplitIfs
import Libquic.Lib.Machine
import Libquic.Lib.PartialMap

/-!
# The default anti-replay store

The callback that `default_anti_replay_add` returns, which keeps the keys of 0-RTT tickets it has
seen and forgets those that have expired, at most once a second. A run keeps the calls so far with
their results; between two calls and during one the clock may go on, but not back.
-/
namespace Libquic

open Lib

variable {κ ν : Type}

/-- A time point of `std::chrono::system_clock`, in nanoseconds. -/
abbrev TimePoint : Type := Int

/-- `1s` -/
def oneSecond : Int := 1000000000

/-- What the callback has captured. -/
structure AntiReplay (κ ν : Type) where
  lastCleanup : TimePoint
  storage : κ → Option (ν × TimePoint) := fun _ => none

namespace AntiReplay

/-- `storage.try_emplace`: whether it inserted, and the storage after it. -/
def tryEmplace [DecidableEq κ] (key : κ) (value : ν) (expiry : TimePoint)
    (storage : κ → Option (ν × TimePoint)) : Bool × (κ → Option (ν × TimePoint)) :=
  ((storage key).isNone, PartialMap.emplace storage key (value, expiry))

/-- `std::erase_if` of what has expired. -/
def eraseExpired (now : TimePoint) (storage : κ → Option (ν × TimePoint)) :
    κ → Option (ν × TimePoint) :=
  fun key => (storage key).filter fun entry => !decide (entry.2 < now)

/-- The callback: whether the key is accepted. The clock is read after the key has been stored. -/
def add [DecidableEq κ] (key : κ) (value : ν) (expiry now : TimePoint) (s : AntiReplay κ ν) :
    Bool × AntiReplay κ ν :=
  let emplaced := tryEmplace key value expiry s.storage
  if s.lastCleanup + oneSecond < now then
    (emplaced.1, { lastCleanup := now, storage := eraseExpired now emplaced.2 })
  else (emplaced.1, { s with storage := emplaced.2 })

variable {storage : κ → Option (ν × TimePoint)} {key k : κ} {value : ν} {expiry now : TimePoint}

theorem eraseExpired_eq_some {entry : ν × TimePoint} :
    eraseExpired now storage k = some entry ↔ storage k = some entry ∧ now ≤ entry.2 := by
  simp [eraseExpired, Option.filter_eq_some_iff]

section Add

variable [DecidableEq κ] {s : AntiReplay κ ν} {entry : ν × TimePoint}

theorem tryEmplace_snd : (tryEmplace key value expiry storage).2 k = some entry ↔
    storage k = some entry ∨ k = key ∧ storage key = none ∧ entry = (value, expiry) := by
  unfold tryEmplace
  grind

/-- A key is accepted if it is not stored. -/
theorem add_accepted : (s.add key value expiry now).1 = true ↔ s.storage key = none := by
  unfold add
  split_ifs <;> exact Option.isNone_iff_eq_none

/-- Nothing is stored but what was before and the key that was accepted. -/
theorem stored_of_add (h : (s.add key value expiry now).2.storage k = some entry) :
    s.storage k = some entry ∨ k = key ∧ s.storage key = none ∧ entry = (value, expiry) := by
  unfold add at h
  split_ifs at h
  · exact tryEmplace_snd.mp (eraseExpired_eq_some.mp h).1
  · exact tryEmplace_snd.mp h

/-- All of that is stored unless it has expired. -/
theorem add_stores (h : s.storage k = some entry ∨
    k = key ∧ s.storage key = none ∧ entry = (value, expiry)) (hnow : now ≤ entry.2) :
    (s.add key value expiry now).2.storage k = some entry := by
  unfold add
  split_ifs
  · exact eraseExpired_eq_some.mpr ⟨tryEmplace_snd.mpr h, hnow⟩
  · exact tryEmplace_snd.mpr h

end Add

end AntiReplay

/-! ## Runs -/

/-- A key is presented when the clock is at `arrival`, and `now` is what the callback reads. -/
structure Presentation (κ ν : Type) where
  key : κ
  value : ν
  expiry : TimePoint
  arrival : TimePoint
  now : TimePoint

/-- A store, the clock, and the presentations so far with their results. -/
structure ReplayRun (κ ν : Type) where
  store : AntiReplay κ ν
  clock : TimePoint
  log : List (Presentation κ ν × Bool) := []

namespace ReplayRun

variable [DecidableEq κ]

/-- Whether the key is accepted now. -/
def accepts (s : ReplayRun κ ν) (p : Presentation κ ν) : Bool :=
  (s.store.add p.key p.value p.expiry p.now).1

def step (s : ReplayRun κ ν) (p : Presentation κ ν) : Except Empty (ReplayRun κ ν) :=
  .ok {
    store := (s.store.add p.key p.value p.expiry p.now).2
    clock := p.now
    log := (p, s.accepts p) :: s.log }

/-- An empty store, and presentations with the clock that never goes back. -/
def machine (κ ν : Type) [DecidableEq κ] : Machine (ReplayRun κ ν) (Presentation κ ν) Empty where
  initial s := ∃ start, s = { store := { lastCleanup := start }, clock := start }
  enabled s p := s.clock ≤ p.arrival ∧ p.arrival ≤ p.now
  step := step

variable {s t : ReplayRun κ ν} {p q : Presentation κ ν}

/-- A key that was accepted is stored with its own expiry until then, and every key that is stored
was presented. -/
structure Inv (s : ReplayRun κ ν) : Prop where
  kept : ∀ p, (p, true) ∈ s.log → s.clock ≤ p.expiry →
    s.store.storage p.key = some (p.value, p.expiry)
  presented : ∀ k entry, s.store.storage k = some entry → ∃ p b, (p, b) ∈ s.log ∧ p.key = k

theorem Inv.step (h : Inv s) (he : (machine κ ν).enabled s p) :
    ∃ t, step s p = .ok t ∧ Inv t := by
  refine ⟨_, rfl, fun q hq hclock => ?_, fun k entry hk => ?_⟩
  · have hle : s.clock ≤ q.expiry := Int.le_trans (Int.le_trans he.1 he.2) hclock
    rcases List.mem_cons.mp hq with hnew | hold
    · obtain ⟨rfl, haccepted⟩ := Prod.mk.inj hnew
      have hnone := AntiReplay.add_accepted.mp haccepted.symm
      exact AntiReplay.add_stores (.inr ⟨rfl, hnone, rfl⟩) hclock
    · exact AntiReplay.add_stores (.inl (h.kept q hold hle)) hclock
  · rcases AntiReplay.stored_of_add hk with hold | ⟨rfl, -, -⟩
    · obtain ⟨q, b, hq, hkey⟩ := h.presented k entry hold
      exact ⟨q, b, List.mem_cons_of_mem _ hq, hkey⟩
    · exact ⟨p, _, List.mem_cons_self, rfl⟩

theorem inductive_inv : (machine κ ν).Inductive Inv where
  initial s hs := by
    obtain ⟨start, rfl⟩ := hs
    exact ⟨by simp, by simp⟩
  step _ _ h he := h.step he

/-- A key that was accepted is refused for as long as the clock has not passed its expiry, whatever
was presented and cleaned up since. A key that was never presented is accepted. -/
theorem replay_refused (h : (machine κ ν).Reachable s) (he : (machine κ ν).enabled s p) :
    (∀ q, (q, true) ∈ s.log → q.key = p.key → p.arrival ≤ q.expiry → s.accepts p = false) ∧
      ((∀ q b, (q, b) ∈ s.log → q.key ≠ p.key) → s.accepts p = true) := by
  have hinv := inductive_inv.reachable h
  constructor
  · intro q hq hkey harrival
    have hstored := hinv.kept q hq (Int.le_trans he.1 harrival)
    rw [hkey] at hstored
    by_contra haccepted
    have hnone := AntiReplay.add_accepted.mp (Bool.not_eq_false _ ▸ haccepted)
    rw [hnone] at hstored
    cases hstored
  · intro hfresh
    apply AntiReplay.add_accepted.mpr
    by_contra hne
    obtain ⟨entry, hentry⟩ := Option.ne_none_iff_exists'.mp hne
    obtain ⟨q, b, hq, hkey⟩ := hinv.presented _ _ hentry
    exact hfresh q b hq hkey

/-- A key is stored at 0 with an expiry at 5 s, a second one clears what has expired at 3 s, and the
first one comes again at 5 s. -/
theorem replay_refused_after_cleanup :
    ∃ s : ReplayRun Nat Unit, (machine Nat Unit).Reachable s ∧ s.store.lastCleanup = 3 * oneSecond ∧
      s.accepts ⟨1, (), 9 * oneSecond, 5 * oneSecond, 5 * oneSecond⟩ = false ∧
      s.accepts ⟨3, (), 9 * oneSecond, 5 * oneSecond, 5 * oneSecond⟩ = true := by
  have hinit : (machine Nat Unit).Reachable { store := { lastCleanup := 0 }, clock := 0 } :=
    .initial ⟨0, rfl⟩
  have hfirst := hinit.step (i := ⟨1, (), 5 * oneSecond, 0, 0⟩) ⟨by decide, by decide⟩ rfl
  have hsecond := hfirst.step (i := ⟨2, (), oneSecond, 2 * oneSecond, 3 * oneSecond⟩)
    ⟨by decide, by decide⟩ rfl
  refine ⟨_, hsecond, by decide, ?_, ?_⟩
  · exact (replay_refused hsecond ⟨by decide, by decide⟩).1 ⟨1, (), 5 * oneSecond, 0, 0⟩
      (.tail _ (.head _)) rfl (by decide)
  · refine (replay_refused hsecond ⟨by decide, by decide⟩).2 fun q b hq => ?_
    rcases List.mem_cons.mp hq with heq | hq
    · rw [(Prod.mk.inj heq).1]
      decide
    · rw [(Prod.mk.inj (List.mem_singleton.mp hq)).1]
      decide

end ReplayRun

end Libquic
