import Mathlib.Tactic.TypeStar

/-!
# Persistent timer events

An event that an event loop keeps after its callback has run. `EventLib` says what a program may
rely on, whatever the library that provides such events: `add` stores the interval in the event,
and each time the event is taken from the active queue it is scheduled again from there; `del`
leaves the stored interval, and only `assign` forgets it; `activate` makes the event active and
does nothing to one that is.

An event is `Steady` when it is pending exactly if it has an interval, and `Quiet` when it has
none and is not pending: a quiet event runs only if it is activated by hand.

`PersistentEvent` is an implementation with two queues.
-/
namespace Libquic.Lib

/-- A library of persistent events and its rules. Times and intervals are in microseconds. -/
structure EventLib (ε : Type*) where
  new : ε
  add : Nat → Nat → ε → ε
  del : ε → ε
  assign : ε → ε
  activate : ε → ε
  /-- The timeout runs out. -/
  expire : ε → ε
  /-- The event leaves the active queue for its callback to be called. -/
  process : Nat → ε → ε
  /-- The stored interval. -/
  interval : ε → Nat
  /-- When the timeout runs out, if one is scheduled. -/
  due : ε → Option Nat
  pending : ε → Bool
  active : ε → Bool
  interval_new : interval new = 0
  pending_new : pending new = false
  interval_add : ∀ now i e, interval (add now i e) = i
  pending_add : ∀ now i e, pending (add now i e) = true
  interval_del : ∀ e, interval (del e) = interval e
  interval_assign : ∀ e, interval (assign e) = 0
  /-- An event is assigned only when it was deleted before. -/
  pending_assign : ∀ e, pending (assign (del e)) = false
  active_assign : ∀ e, active (assign (del e)) = false
  interval_activate : ∀ e, interval (activate e) = interval e
  pending_activate : ∀ e, pending (activate e) = pending e
  active_activate : ∀ e, active (activate e) = true
  interval_expire : ∀ e, interval (expire e) = interval e
  pending_expire : ∀ e, pending (expire e) = pending e
  active_expire : ∀ e, due e ≠ none → active (expire e) = true
  interval_process : ∀ now e, interval (process now e) = interval e
  active_process : ∀ now e, active (process now e) = false
  pending_process : ∀ now e, interval e ≠ 0 → pending (process now e) = true
  pending_process_zero : ∀ now e, interval e = 0 → pending e = false →
    pending (process now e) = false
  pending_of_due : ∀ e, due e ≠ none → pending e = true

namespace EventLib

variable {ε : Type*} {E : EventLib ε} {e : ε}

attribute [simp] interval_new pending_new interval_add pending_add interval_assign pending_assign
  active_assign interval_activate pending_activate active_activate interval_expire pending_expire
  interval_process active_process

def Steady (E : EventLib ε) (e : ε) : Prop := E.pending e = decide (0 < E.interval e)

structure Quiet (E : EventLib ε) (e : ε) : Prop where
  interval : E.interval e = 0
  pending : E.pending e = false

theorem quiet_new : E.Quiet E.new := ⟨E.interval_new, E.pending_new⟩

theorem quiet_assign (e : ε) : E.Quiet (E.assign (E.del e)) :=
  ⟨E.interval_assign _, E.pending_assign e⟩

theorem Quiet.steady (h : E.Quiet e) : E.Steady e := by
  simp [Steady, h.interval, h.pending]

theorem Quiet.due (h : E.Quiet e) : E.due e = none := by
  cases hdue : E.due e with
  | none => rfl
  | some due =>
    have hpending := E.pending_of_due e (by simp [hdue])
    simp [h.pending] at hpending

theorem Quiet.activate (h : E.Quiet e) : E.Quiet (E.activate e) :=
  ⟨(E.interval_activate e).trans h.interval, (E.pending_activate e).trans h.pending⟩

theorem Quiet.process (h : E.Quiet e) (now : Nat) : E.Quiet (E.process now e) :=
  ⟨(E.interval_process now e).trans h.interval, E.pending_process_zero now e h.interval h.pending⟩

theorem steady_add (now : Nat) {interval : Nat} (h : 0 < interval) (e : ε) :
    E.Steady (E.add now interval e) := by
  simp [Steady, h]

theorem Steady.activate (h : E.Steady e) : E.Steady (E.activate e) := by
  unfold Steady
  rw [pending_activate, interval_activate]
  exact h

theorem Steady.expire (h : E.Steady e) : E.Steady (E.expire e) := by
  unfold Steady
  rw [pending_expire, interval_expire]
  exact h

theorem Steady.process (h : E.Steady e) (now : Nat) : E.Steady (E.process now e) := by
  by_cases hzero : E.interval e = 0
  · have hquiet : E.Quiet e := ⟨hzero, by simpa [Steady, hzero] using h⟩
    exact (hquiet.process now).steady
  · have hpos : 0 < E.interval e := Nat.pos_of_ne_zero hzero
    simpa [Steady, hpos] using E.pending_process now e hzero

end EventLib

/-! ## An implementation -/

/-- Why an event is on the active queue: its timeout ran out, or someone put it there. -/
inductive Activation where
  | timeout (due : Nat)
  | manual
  deriving DecidableEq, Repr

structure PersistentEvent where
  ioTimeout : Nat := 0
  /-- When the timeout runs out, while the event is on the timeout queue. -/
  due : Option Nat := none
  active : Option Activation := none
  deriving DecidableEq, Repr

namespace PersistentEvent

def timedOut (e : PersistentEvent) : Bool :=
  match e.active with
  | some (.timeout _) => true
  | _ => false

/-- On the timeout queue, or active because of its timeout. -/
def pending (e : PersistentEvent) : Bool := e.due.isSome || e.timedOut

/-- A new timeout takes the place of one that has run out and not been seen to yet. -/
def add (now interval : Nat) (e : PersistentEvent) : PersistentEvent where
  ioTimeout := interval
  due := some (now + interval)
  active := if e.timedOut then none else e.active

def del (e : PersistentEvent) : PersistentEvent := { e with due := none, active := none }

def activate (e : PersistentEvent) : PersistentEvent :=
  { e with active := e.active.or (some .manual) }

/-- The event leaves all queues and becomes active with that reason. -/
def expire (e : PersistentEvent) : PersistentEvent :=
  match e.due with
  | none => e
  | some due => { e with due := none, active := some (.timeout due) }

/-- The event is scheduled again: one interval after it was due, or after now if it was not due
or that time has passed. -/
def process (now : Nat) (e : PersistentEvent) : PersistentEvent :=
  let relativeTo := match e.active with
    | some (.timeout due) => due
    | _ => now
  let runAt := relativeTo + e.ioTimeout
  { e with
    active := none
    due := if e.ioTimeout = 0 then e.due
      else some (if runAt < now then now + e.ioTimeout else runAt) }

theorem expire_ioTimeout (e : PersistentEvent) : e.expire.ioTimeout = e.ioTimeout := by
  unfold expire
  split <;> rfl

/-- Activating a timer by hand says nothing about its timeout. -/
theorem pending_activate (e : PersistentEvent) : e.activate.pending = e.pending := by
  unfold pending timedOut activate
  cases e.active <;> rfl

theorem pending_expire (e : PersistentEvent) : e.expire.pending = e.pending := by
  unfold expire
  split
  next => rfl
  next due hdue => simp [pending, timedOut, hdue]

def lib : EventLib PersistentEvent where
  new := {}
  add := add
  del := del
  assign _ := {}
  activate := activate
  expire := expire
  process := process
  interval := ioTimeout
  due := due
  pending := pending
  active e := e.active.isSome
  interval_new := rfl
  pending_new := rfl
  interval_add _ _ _ := rfl
  pending_add _ _ _ := rfl
  interval_del _ := rfl
  interval_assign _ := rfl
  pending_assign _ := rfl
  active_assign _ := rfl
  interval_activate _ := rfl
  pending_activate := pending_activate
  active_activate e := by simp [activate]
  interval_expire := expire_ioTimeout
  pending_expire := pending_expire
  active_expire e hdue := by
    obtain ⟨due, hdue⟩ := Option.ne_none_iff_exists'.mp hdue
    simp [expire, hdue]
  interval_process _ _ := rfl
  active_process _ _ := rfl
  pending_process now e h := by simp [pending, process, h]
  pending_process_zero now e h hpending := by
    have hdue : e.due = none := by simpa using (Bool.or_eq_false_iff.mp hpending).1
    simp [pending, process, timedOut, h, hdue]
  pending_of_due e hdue := by simp [pending, Option.isSome_iff_ne_none.mpr hdue]

end PersistentEvent

end Libquic.Lib
