import Mathlib.Logic.Basic
import Mathlib.Tactic.TypeStar

/-!
# Machines whose steps can fault

A machine has a set of initial states, a precondition for each input, and a step
function that either faults or moves to the next state. A fault stands for whatever
the modelled program must never do: a failed assertion, an unsigned counter going
below zero, an access outside a container.

`Machine.Inductive` packages the two facts that every safety proof needs. From it
follow both that the invariant holds in every reachable state and that no enabled
step faults there. `Machine.Simulation` relates two machines for one program, of which
the second takes smaller steps.
-/
namespace Libquic.Lib

/-- A transition system driven by inputs, with the caller's obligations in `enabled`. -/
structure Machine (State Input Fault : Type*) where
  initial : State → Prop
  enabled : State → Input → Prop
  step : State → Input → Except Fault State

namespace Machine

variable {State Input Fault : Type*} (M : Machine State Input Fault)

/-- The states reached by enabled, non-faulting steps. -/
inductive Reachable : State → Prop where
  | initial {s : State} : M.initial s → Reachable s
  | step {s t : State} {i : Input} :
      Reachable s → M.enabled s i → M.step s i = .ok t → Reachable t

/-- Zero or more enabled, non-faulting steps. -/
inductive Steps : State → State → Prop where
  | refl {s : State} : Steps s s
  | tail {s t u : State} {i : Input} :
      Steps s t → M.enabled t i → M.step t i = .ok u → Steps s u

/-- An invariant that holds initially and that every enabled step keeps. -/
structure Inductive (I : State → Prop) : Prop where
  initial : ∀ s, M.initial s → I s
  step : ∀ s i, I s → M.enabled s i → ∃ t, M.step s i = .ok t ∧ I t

variable {M}

theorem Reachable.steps {s t : State} (hs : M.Reachable s) (h : M.Steps s t) : M.Reachable t := by
  induction h with
  | refl => exact hs
  | tail _ he ht ih => exact ih.step he ht

/-- What every step keeps holds at the end of a run if it held at the start. -/
theorem Steps.keep {P : State → Prop} {s t : State}
    (hstep : ∀ s i t, P s → M.enabled s i → M.step s i = .ok t → P t) (h : M.Steps s t)
    (hs : P s) : P t := by
  induction h with
  | refl => exact hs
  | tail _ he ht ih => exact hstep _ _ _ ih he ht

theorem Steps.head {s t u : State} {i : Input} (he : M.enabled s i) (ht : M.step s i = .ok t)
    (h : M.Steps t u) : M.Steps s u := by
  induction h with
  | refl => exact .tail .refl he ht
  | tail _ he' ht' ih => exact .tail ih he' ht'

theorem Steps.trans {s t u : State} (h : M.Steps s t) (h' : M.Steps t u) : M.Steps s u := by
  induction h' with
  | refl => exact h
  | tail _ he ht ih => exact .tail ih he ht

/-- A machine that uses something up with every step, and does not fault, comes to a stop. -/
theorem Reachable.stops {μ : State → Nat} {s : State}
    (hstep : ∀ s i, M.Reachable s → M.enabled s i → ∃ t, M.step s i = .ok t ∧ μ t < μ s)
    (hs : M.Reachable s) : ∃ t, M.Steps s t ∧ ∀ i, ¬ M.enabled t i := by
  induction hleft : μ s using Nat.strongRecOn generalizing s with
  | _ left ih =>
    by_cases hnone : ∀ i, ¬ M.enabled s i
    · exact ⟨s, .refl, hnone⟩
    · obtain ⟨i, he⟩ := not_forall_not.mp hnone
      obtain ⟨t, ht, hlt⟩ := hstep s i hs he
      obtain ⟨u, hu, hstop⟩ := ih (μ t) (hleft ▸ hlt) (hs.step he ht) rfl
      exact ⟨u, .head he ht hu, hstop⟩

/-- What every step keeps holds in every reachable state if it holds initially. -/
theorem Reachable.keep {P : State → Prop} {s : State} (hinit : ∀ s, M.initial s → P s)
    (hstep : ∀ s i t, P s → M.enabled s i → M.step s i = .ok t → P t) (h : M.Reachable s) :
    P s := by
  induction h with
  | initial h0 => exact hinit _ h0
  | step _ he ht ih => exact hstep _ _ _ ih he ht

theorem Inductive.reachable {I : State → Prop} (h : M.Inductive I) {s : State}
    (hs : M.Reachable s) : I s := by
  refine hs.keep h.initial fun s i t hi he ht => ?_
  obtain ⟨t', hok, hi'⟩ := h.step s i hi he
  obtain rfl : t' = t := Except.ok.inj (hok.symm.trans ht)
  exact hi'

/-- No enabled step faults in a reachable state. -/
theorem Inductive.progress {I : State → Prop} (h : M.Inductive I) {s : State} {i : Input}
    (hs : M.Reachable s) (he : M.enabled s i) : ∃ t, M.step s i = .ok t := by
  obtain ⟨t, hok, _⟩ := h.step s i (h.reachable hs) he
  exact ⟨t, hok⟩

/-- Every step of `M` is matched by zero or more steps of `N`. -/
structure Simulation {State' Input' Fault' : Type*} (M : Machine State Input Fault)
    (N : Machine State' Input' Fault') (R : State → State' → Prop) : Prop where
  initial : ∀ s, M.initial s → ∃ t, N.initial t ∧ R s t
  step : ∀ s i s' t, M.Reachable s → N.Reachable t → R s t → M.enabled s i → M.step s i = .ok s' →
    ∃ t', N.Steps t t' ∧ R s' t'

theorem Simulation.reachable {State' Input' Fault' : Type*} {N : Machine State' Input' Fault'}
    {R : State → State' → Prop} (h : Simulation M N R) {s : State} (hs : M.Reachable s) :
    ∃ t, N.Reachable t ∧ R s t := by
  induction hs with
  | initial hinit =>
    obtain ⟨t, ht, hr⟩ := h.initial _ hinit
    exact ⟨t, .initial ht, hr⟩
  | step hs he hstep ih =>
    obtain ⟨t, ht, hr⟩ := ih
    obtain ⟨t', hsteps, hr'⟩ := h.step _ _ _ _ hs ht hr he hstep
    exact ⟨t', ht.steps hsteps, hr'⟩

/-- Run a list of inputs, as long as each is enabled and none faults. -/
def run (M : Machine State Input Fault) [∀ s i, Decidable (M.enabled s i)] (s : State) :
    List Input → Option State
  | [] => some s
  | i :: is =>
    if M.enabled s i then
      match M.step s i with
      | .ok t => run M t is
      | .error _ => none
    else none

theorem Reachable.run [∀ s i, Decidable (M.enabled s i)] {s t : State} {is : List Input}
    (hs : M.Reachable s) (h : M.run s is = some t) : M.Reachable t := by
  induction is generalizing s with
  | nil => exact Option.some.inj h ▸ hs
  | cons i is ih =>
    unfold Machine.run at h
    split at h
    next he =>
      split at h
      next u hu => exact ih (hs.step he hu) h
      next => cases h
    next => cases h

end Machine

@[simp] theorem ok_bind {Fault : Type*} {α β : Type} (a : α) (f : α → Except Fault β) :
    (Except.ok a >>= f) = f a := rfl

theorem bind_ok {Fault : Type*} {α β : Type} {x : Except Fault α} {f : α → Except Fault β} {b : β}
    (h : x >>= f = .ok b) : ∃ a, x = .ok a ∧ f a = .ok b := by
  cases x with
  | error _ => cases h
  | ok a => exact ⟨a, rfl, h⟩

@[simp] theorem pure_eq_ok {Fault : Type*} {α : Type} (a : α) :
    (pure a : Except Fault α) = .ok a := rfl

end Libquic.Lib
