import Libquic.Lib.Machine
import Libquic.Lib.PersistentEvent
import Mathlib.Logic.Function.Basic
import Mathlib.Logic.Relation
import Mathlib.Tactic.Common

/-!
# Timers of the job queue

`JobQueue` keeps its timers in a registry of entries, each with a persistent event of libevent,
of which only the rules of `EventLib` are used. All calls here are made on the loop thread: from
outside of any timer, or from inside a callback, which is why starting a callback and its end are
steps of their own, with calls in between. Time passes at any moment; a timeout runs out, and a
callback is started, only by the loop itself and so only while no callback runs. A callback that
throws just ends.

`TimerRun` is the queue with a record of what was asked of it. The queue's functions do not write
the record: each step adds to it what `TimerQueue.calls` reads off the call alone. Each timer is
then followed on its own, through the moves that the queue can make with it.
-/
namespace Libquic

open Lib

variable {ε : Type}

structure TimerID where
  id : Int := -1
  deriving DecidableEq, Repr

def TimerID.toString (id : TimerID) : String := "Timer[" ++ ToString.toString id.id ++ "]"

inductive JobError where
  | invalidArgument (what : String)
  | runtimeError (what : String)
  deriving DecidableEq, Repr

structure Timeval where
  sec : Int
  usec : Int
  deriving DecidableEq, Repr

def Timeval.micros (tv : Timeval) : Nat := (tv.sec * 1000000 + tv.usec).toNat

/-- For an interval in microseconds. -/
def loopTimeToTimeval (t : Int) : Timeval := ⟨t.tdiv 1000000, t.tmod 1000000⟩

@[simp] theorem micros_loopTimeToTimeval (t : Int) : (loopTimeToTimeval t).micros = t.toNat := by
  simp [Timeval.micros, loopTimeToTimeval, Int.tdiv_mul_add_tmod]

/-- `JobQueue::Entry`, less its callback. -/
structure TimerEntry (ε : Type) where
  ev : ε
  oneShot : Bool
  deriving DecidableEq, Repr

/-- What has happened to a timer. -/
inductive TimerCall where
  | added (interval : Int) (oneShot : Bool)
  | repeated (interval : Int)
  | stopped
  | woken
  | removed
  /-- Its callback was started. -/
  | ran
  deriving DecidableEq, Repr

/-- The interval that a call sets. -/
def TimerCall.interval : TimerCall → Option Int
  | .added interval _ => some interval
  | .repeated interval => some interval
  | .stopped => some 0
  | _ => none

structure TimerQueue (ε : Type) where
  registry : TimerID → Option (TimerEntry ε) := fun _ => none
  registryStopped : Bool := false
  nextTimerId : Nat := 0
  now : Nat := 0
  /-- The timer whose callback is running, and its entry's `one_shot`. -/
  running : Option (TimerID × Bool) := none

namespace TimerQueue

variable (E : EventLib ε)

def set (x : TimerQueue ε) (id : TimerID) (e : Option (TimerEntry ε)) : TimerQueue ε :=
  { x with registry := Function.update x.registry id e }

/-- `f` says whether there is a callback at all, and `created` whether libevent makes the event.
A one-shot is always armed, since it is disposed of by firing. -/
def addEntry (x : TimerQueue ε) (interval : Int) (f created oneShot : Bool) :
    Except JobError TimerID × TimerQueue ε :=
  if !f then (.error (.invalidArgument "JobQueue: job callback must not be empty"), x)
  else if x.registryStopped then
    (.error (.runtimeError "Attempting to queue job onto stopped loop."), x)
  else
    let id : TimerID := ⟨x.nextTimerId⟩
    let x := { x with nextTimerId := x.nextTimerId + 1 }
    if !created then (.error (.runtimeError "JobQueue: failed to create job event"), x)
    else
      let ev :=
        if oneShot ∨ 0 < interval then
          E.add x.now (loopTimeToTimeval (max interval 0)).micros E.new
        else E.new
      (.ok id, x.set id (some ⟨ev, oneShot⟩))

def callLater (x : TimerQueue ε) (delay : Int) (f created : Bool) :
    Except JobError Unit × TimerQueue ε :=
  let (r, x) := x.addEntry E delay f created true
  (r.map fun _ => (), x)

def addTimer (x : TimerQueue ε) (interval : Int) (f created : Bool) :
    Except JobError TimerID × TimerQueue ε :=
  x.addEntry E interval f created false

def addWakeable (x : TimerQueue ε) (f created : Bool) : Except JobError TimerID × TimerQueue ε :=
  x.addTimer E 0 f created

/-- `event_del` leaves the interval in the event; it is `event_assign` that clears it. -/
def disarm (e : TimerEntry ε) : TimerEntry ε := { e with ev := E.assign (E.del e.ev) }

def wake (x : TimerQueue ε) (id : TimerID) : Except JobError (TimerQueue ε) :=
  match x.registry id with
  | none => .error (.invalidArgument ("JobQueue::wake: no such job " ++ id.toString))
  | some e => .ok (x.set id (some { e with ev := E.activate e.ev }))

/-- `JobQueue::repeat`. -/
def repeatEvery (x : TimerQueue ε) (id : TimerID) (interval : Int) (now : Bool) :
    Except JobError (TimerQueue ε) :=
  match x.registry id with
  | none => .error (.invalidArgument ("JobQueue::repeat: no such job " ++ id.toString))
  | some e =>
    let e := if 0 < interval then
        { e with ev := E.add x.now (loopTimeToTimeval interval).micros e.ev }
      else disarm E e
    .ok (x.set id (some (if now then { e with ev := E.activate e.ev } else e)))

def armed (x : TimerQueue ε) (id : TimerID) : Bool :=
  match x.registry id with
  | none => false
  | some e => E.pending e.ev

def stop (x : TimerQueue ε) (id : TimerID) : Bool × TimerQueue ε :=
  match x.registry id with
  | none => (false, x)
  | some e => (E.pending e.ev, x.set id (some (disarm E e)))

/-- The event is deleted, and freed by libevent when no callback of it runs any more. -/
def remove (x : TimerQueue ε) (id : TimerID) : Bool × TimerQueue ε :=
  match x.registry id with
  | none => (false, x)
  | some _ => (true, x.set id none)

/-- `JobQueue::stop()` drops all entries, and so removes all timers. -/
def stopQueue (x : TimerQueue ε) : TimerQueue ε :=
  { x with registry := fun _ => none, registryStopped := true }

/-! ## The loop -/

/-- The loop finds that the timeout has run out. -/
def expire (x : TimerQueue ε) (id : TimerID) : TimerQueue ε :=
  match x.registry id with
  | none => x
  | some e => x.set id (some { e with ev := E.expire e.ev })

/-- The loop takes the event from the active queue and `Entry::dispatch` calls the callback. -/
def dispatch (x : TimerQueue ε) (id : TimerID) : TimerQueue ε :=
  match x.registry id with
  | none => x
  | some e => { x.set id (some { e with ev := E.process x.now e.ev }) with
      running := some (id, e.oneShot) }

/-- The callback has returned or thrown, and `Entry::dispatch` goes on. -/
def finish (x : TimerQueue ε) : TimerQueue ε :=
  match x.running with
  | none => x
  | some (id, oneShot) =>
    let x := if oneShot then (x.remove id).2 else x
    { x with running := none }

inductive Op where
  | addTimer (interval : Int) (f created : Bool)
  | addWakeable (f created : Bool)
  | callLater (delay : Int) (f created : Bool)
  | repeatEvery (id : TimerID) (interval : Int) (now : Bool)
  | wake (id : TimerID)
  | stop (id : TimerID)
  | remove (id : TimerID)
  | stopQueue
  /-- Another queue of the process takes an id. -/
  | otherQueue
  /-- Time passes. -/
  | advance (micros : Nat)
  | expire (id : TimerID)
  | dispatch (id : TimerID)
  | finish (threw : Bool)
  deriving DecidableEq, Repr

def Enabled (x : TimerQueue ε) : Op → Prop
  | .expire id => x.running = none ∧ ∃ e ∈ x.registry id, ∃ due ∈ E.due e.ev, due ≤ x.now
  | .dispatch id => x.running = none ∧ ∃ e ∈ x.registry id, E.active e.ev = true
  | .finish _ => x.running ≠ none
  | _ => True

/-- A call that throws leaves the timers as they were. -/
def step (x : TimerQueue ε) : Op → TimerQueue ε
  | .addTimer interval f created => (x.addTimer E interval f created).2
  | .addWakeable f created => (x.addWakeable E f created).2
  | .callLater delay f created => (x.callLater E delay f created).2
  | .repeatEvery id interval now => (x.repeatEvery E id interval now).toOption.getD x
  | .wake id => (x.wake E id).toOption.getD x
  | .stop id => (x.stop E id).2
  | .remove id => (x.remove id).2
  | .stopQueue => x.stopQueue
  | .otherQueue => { x with nextTimerId := x.nextTimerId + 1 }
  | .advance micros => { x with now := x.now + micros }
  | .expire id => x.expire E id
  | .dispatch id => x.dispatch E id
  | .finish _ => x.finish

/-! ## What was asked for -/

/-- Something happens to the timer `id`, if there is one. -/
def mark (x : TimerQueue ε) (id : TimerID) (calls : List TimerCall) (id' : TimerID) :
    List TimerCall :=
  if id' = id ∧ (x.registry id').isSome then calls else []

/-- A timer is asked for, and gets the next id unless that is refused. -/
def markNew (x : TimerQueue ε) (interval : Int) (f created oneShot : Bool) (id' : TimerID) :
    List TimerCall :=
  if id' = ⟨x.nextTimerId⟩ ∧ f ∧ created ∧ !x.registryStopped then [.added interval oneShot] else []

/-- What an operation means for each timer, the latest first. -/
def calls (x : TimerQueue ε) : Op → TimerID → List TimerCall
  | .addTimer interval f created => x.markNew interval f created false
  | .addWakeable f created => x.markNew 0 f created false
  | .callLater delay f created => x.markNew delay f created true
  | .repeatEvery id interval now =>
    x.mark id (if now then [.woken, .repeated interval] else [.repeated interval])
  | .wake id => x.mark id [.woken]
  | .stop id => x.mark id [.stopped]
  | .remove id => x.mark id [.removed]
  | .stopQueue => fun id => x.mark id [.removed] id
  | .dispatch id => x.mark id [.ran]
  -- a delayed call is over when its callback is
  | .finish _ => fun id => if x.running = some (id, true) then x.mark id [.removed] id else []
  | .otherQueue | .advance _ | .expire _ => fun _ => []

end TimerQueue

/-- The queue, and what has happened to each timer, the latest first. -/
structure TimerRun (ε : Type) where
  queue : TimerQueue ε := {}
  history : TimerID → List TimerCall := fun _ => []

namespace TimerRun

def step (E : EventLib ε) (x : TimerRun ε) (op : TimerQueue.Op) : TimerRun ε where
  queue := x.queue.step E op
  history id := x.queue.calls op id ++ x.history id

def machine (E : EventLib ε) : Machine (TimerRun ε) TimerQueue.Op Empty where
  initial x := x = {}
  enabled x := x.queue.Enabled E
  step x op := .ok (x.step E op)

end TimerRun

/-! ## One timer -/

/-- What one id stands for: its entry while it is registered, what has happened to it, and
whether its callback is running, then with `one_shot`. -/
structure TimerLife (ε : Type) where
  entry : Option (TimerEntry ε) := none
  history : List TimerCall := []
  running : Option Bool := none

namespace TimerLife

variable {E : EventLib ε} {t u : TimerLife ε}

/-- A call after which the timer has no interval. -/
def Disarms (c : TimerCall) : Prop := c = .stopped ∨ ∃ i ≤ 0, c = .repeated i

theorem Disarms.ne {c d : TimerCall} (h : Disarms c) (hstop : d ≠ .stopped)
    (hrepeat : ∀ i, d ≠ .repeated i) : c ≠ d := by
  rcases h with rfl | ⟨i, -, rfl⟩
  · exact hstop.symm
  · exact (hrepeat i).symm

/-- The timer gets another event, and `c` is recorded. -/
def call (t : TimerLife ε) (e : TimerEntry ε) (ev : ε) (c : TimerCall) : TimerLife ε :=
  { t with entry := some { e with ev := ev }, history := c :: t.history }

/-- What can happen to a timer. -/
inductive Move (E : EventLib ε) (t : TimerLife ε) : TimerLife ε → Prop where
  | added {ev : ε} {i : Int} {oneShot : Bool} (fresh : t.history = [])
      (interval : E.interval ev = i.toNat) (steady : oneShot = false → E.Steady ev) :
      Move E t { t with entry := some ⟨ev, oneShot⟩, history := .added i oneShot :: t.history }
  | repeated {e : TimerEntry ε} {i : Int} (now : Nat) (entry : t.entry = some e) (pos : 0 < i) :
      Move E t (t.call e (E.add now i.toNat e.ev) (.repeated i))
  | disarmed {e : TimerEntry ε} {c : TimerCall} (entry : t.entry = some e) (disarms : Disarms c) :
      Move E t (t.call e (E.assign (E.del e.ev)) c)
  | woken {e : TimerEntry ε} (entry : t.entry = some e) :
      Move E t (t.call e (E.activate e.ev) .woken)
  | removed {e : TimerEntry ε} (entry : t.entry = some e) :
      Move E t { t with entry := none, history := .removed :: t.history }
  | expired {e : TimerEntry ε} (entry : t.entry = some e) (due : E.due e.ev ≠ none) :
      Move E t { t with entry := some { e with ev := E.expire e.ev } }
  | ran {e : TimerEntry ε} (now : Nat) (entry : t.entry = some e) (active : E.active e.ev = true)
      (idle : t.running = none) :
      Move E t { t.call e (E.process now e.ev) .ran with running := some e.oneShot }
  | finished {oneShot : Bool} (running : t.running = some oneShot)
      (gone : oneShot = true → t.entry = none) : Move E t { t with running := none }

/-- The interval that the latest of its calls has set. -/
def interval (t : TimerLife ε) : Option Int := t.history.findSome? TimerCall.interval

/-- A start of the callback that is due whatever happens to the timeout. -/
def waiting (E : EventLib ε) (t : TimerLife ε) : Nat := if t.entry.any (E.active ·.ev) then 1 else 0

theorem waiting_le_one (t : TimerLife ε) : t.waiting E ≤ 1 := by
  unfold waiting
  split <;> omega

/-- The event holds the interval that was set last. -/
def Scheduled (E : EventLib ε) (t : TimerLife ε) : Prop :=
  ∀ e, t.entry = some e → ∃ i, t.interval = some i ∧ E.interval e.ev = i.toNat ∧
    (e.oneShot = false → E.Steady e.ev)

theorem Move.scheduled (h : t.Move E u) (ht : t.Scheduled E) : u.Scheduled E := by
  cases h with
  | @added ev i oneShot _ hi hsteady =>
    rintro e ⟨⟩
    exact ⟨i, rfl, hi, hsteady⟩
  | @repeated e i now he hpos =>
    rintro e' ⟨⟩
    exact ⟨i, rfl, by simp, fun _ => EventLib.steady_add now (by omega) _⟩
  | @disarmed e c he hc =>
    rintro e' ⟨⟩
    rcases hc with rfl | ⟨i, hi, rfl⟩
    · exact ⟨0, rfl, by simp, fun _ => (EventLib.quiet_assign e.ev).steady⟩
    · exact ⟨i, rfl, by simp; omega, fun _ => (EventLib.quiet_assign e.ev).steady⟩
  | @woken e he =>
    rintro e' ⟨⟩
    obtain ⟨i, hi, hev, hsteady⟩ := ht e he
    exact ⟨i, hi, by simpa using hev, fun hone => (hsteady hone).activate⟩
  | removed => exact fun e he => nomatch he
  | @expired e he _ =>
    rintro e' ⟨⟩
    obtain ⟨i, hi, hev, hsteady⟩ := ht e he
    exact ⟨i, hi, by simpa using hev, fun hone => (hsteady hone).expire⟩
  | @ran e now he _ _ =>
    rintro e' ⟨⟩
    obtain ⟨i, hi, hev, hsteady⟩ := ht e he
    exact ⟨i, hi, by simpa using hev, fun hone => (hsteady hone).process now⟩
  | finished => exact ht

/-- The entry is of the kind that was added, and the running callback is that of the entry. -/
structure Kept (t : TimerLife ε) : Prop where
  fresh : t.history = [] → t.entry = none ∧ t.running = none
  made : ∀ e, t.entry = some e → ∃ i, .added i e.oneShot ∈ t.history
  registered : ∀ i oneShot, .added i oneShot ∈ t.history → .removed ∉ t.history → t.entry ≠ none
  added : ∀ e i oneShot, t.entry = some e → .added i oneShot ∈ t.history → e.oneShot = oneShot
  running : ∀ e oneShot, t.entry = some e → t.running = some oneShot → e.oneShot = oneShot

theorem Kept.call {e : TimerEntry ε} {c : TimerCall} (h : t.Kept) (he : t.entry = some e)
    (hc : ∀ i oneShot, c ≠ .added i oneShot) (ev : ε) : (t.call e ev c).Kept := by
  refine ⟨by simp [TimerLife.call], ?_, by simp [TimerLife.call], ?_, ?_⟩
  · rintro e' ⟨⟩
    obtain ⟨i, hmem⟩ := h.made e he
    exact ⟨i, List.mem_cons_of_mem c hmem⟩
  · rintro e' i oneShot ⟨⟩ hmem
    rcases List.mem_cons.mp hmem with heq | hmem
    · exact (hc i oneShot heq.symm).elim
    · exact h.added e i oneShot he hmem
  · rintro e' oneShot ⟨⟩ hr
    exact h.running e oneShot he hr

theorem Move.kept (h : t.Move E u) (ht : t.Kept) : u.Kept := by
  cases h with
  | @added ev i oneShot hfresh _ _ =>
    refine ⟨by simp, ?_, by simp, ?_, fun e o _ hr => ?_⟩
    · rintro e ⟨⟩
      exact ⟨i, List.mem_cons_self⟩
    · rintro e i' o ⟨⟩ hmem
      simp_all
    · simp [(ht.fresh hfresh).2] at hr
  | repeated now he _ => exact ht.call he (by simp) _
  | disarmed he hc => exact ht.call he (fun _ _ => hc.ne (by simp) (by simp)) _
  | woken he => exact ht.call he (by simp) _
  | removed he => exact ⟨by simp, by simp, by simp, by simp, by simp⟩
  | @expired e he _ =>
    refine ⟨fun hnil => ?_, ?_, by simp, ?_, ?_⟩
    · simp [(ht.fresh hnil).1] at he
    · rintro e' ⟨⟩
      exact ht.made e he
    · rintro e' i oneShot ⟨⟩ hmem
      exact ht.added e i oneShot he hmem
    · rintro e' oneShot ⟨⟩ hr
      exact ht.running e oneShot he hr
  | @ran e now he _ _ =>
    have hcall := ht.call he (c := .ran) (by simp) (E.process now e.ev)
    refine ⟨by simp [TimerLife.call], hcall.made, hcall.registered, hcall.added, ?_⟩
    rintro e' oneShot ⟨⟩ ⟨⟩
    rfl
  | finished =>
    exact ⟨fun hnil => ⟨(ht.fresh hnil).1, rfl⟩, ht.made, ht.registered, ht.added, by simp⟩

/-- Once removed, a timer is not registered and its callback is not started. -/
structure Gone (t : TimerLife ε) : Prop where
  entry : .removed ∈ t.history → t.entry = none
  silent : ∀ after before, t.history = after ++ .removed :: before → .ran ∉ after

theorem Gone.not_mem {e : TimerEntry ε} (h : t.Gone) (he : t.entry = some e) :
    .removed ∉ t.history := fun hmem => by simp [h.entry hmem] at he

/-- Nothing to show as long as it has not been removed. -/
theorem gone_of_not_mem (h : .removed ∉ t.history) : t.Gone :=
  ⟨fun hmem => (h hmem).elim, fun after before heq => (h (by simp [heq])).elim⟩

theorem Gone.call {e : TimerEntry ε} {c : TimerCall} (h : t.Gone) (he : t.entry = some e)
    (hc : c ≠ .removed) (ev : ε) : (t.call e ev c).Gone := by
  apply gone_of_not_mem
  simpa [TimerLife.call, hc.symm] using h.not_mem he

theorem Move.gone (h : t.Move E u) (ht : t.Gone) : u.Gone := by
  cases h with
  | added hfresh => exact gone_of_not_mem (by simp [hfresh])
  | repeated now he _ => exact ht.call he (by simp) _
  | disarmed he hc => exact ht.call he (hc.ne (by simp) (by simp)) _
  | woken he => exact ht.call he (by simp) _
  | removed he =>
    refine ⟨fun _ => rfl, fun after before heq => ?_⟩
    cases after with
    | nil => simp
    | cons c after =>
      obtain ⟨-, hrest⟩ := List.cons.inj heq
      exact (ht.not_mem he (by simp [hrest])).elim
  | expired he _ => exact gone_of_not_mem (ht.not_mem he)
  | @ran e now he _ _ =>
    have hcall := ht.call he (c := .ran) (by simp) (E.process now e.ev)
    exact ⟨hcall.entry, hcall.silent⟩
  | finished => exact ⟨ht.entry, ht.silent⟩

/-- The timer was stopped, `after` has happened since, and it was not set to repeat. -/
def SinceStop (after : List TimerCall) (history : List TimerCall) : Prop :=
  (∃ before, history = after ++ .stopped :: before) ∧ ∀ i, .repeated i ∈ after → i ≤ 0

theorem sinceStop_cons {c : TimerCall} {after history : List TimerCall}
    (h : SinceStop after (c :: history)) :
    after = [] ∧ c = .stopped ∨ ∃ after', after = c :: after' ∧ SinceStop after' history ∧
      ∀ i, c = .repeated i → i ≤ 0 := by
  obtain ⟨⟨before, heq⟩, hrep⟩ := h
  cases after with
  | nil => exact .inl ⟨rfl, (List.cons.inj heq).1⟩
  | cons d after =>
    obtain ⟨rfl, hrest⟩ := List.cons.inj heq
    exact .inr ⟨after, rfl, ⟨⟨before, hrest⟩, fun i hmem => hrep i (List.mem_cons_of_mem _ hmem)⟩,
      fun i hi => hrep i (by simp [hi])⟩

/-- Since a stop, every start of the callback and the one that is due has a wake of its own, and
no timeout is pending. -/
structure Halted (E : EventLib ε) (t : TimerLife ε) (after : List TimerCall) : Prop where
  quiet : ∀ e, t.entry = some e → E.Quiet e.ev
  woken : after.count .ran + t.waiting E ≤ after.count .woken

theorem Move.halted (h : t.Move E u) (ht : ∀ after, SinceStop after t.history → t.Halted E after)
    {after : List TimerCall} (hafter : SinceStop after u.history) : u.Halted E after := by
  cases h with
  | added hfresh =>
    rcases sinceStop_cons hafter with ⟨-, hc⟩ | ⟨after', -, ⟨⟨before, heq⟩, -⟩, -⟩
    · cases hc
    · simp [hfresh] at heq
  | @repeated e i now he hpos =>
    rcases sinceStop_cons hafter with ⟨-, hc⟩ | ⟨after', -, -, hrep⟩
    · cases hc
    · have := hrep i rfl
      omega
  | @disarmed e c he hc =>
    have hquiet : ∀ e', (t.call e (E.assign (E.del e.ev)) c).entry = some e' → E.Quiet e'.ev := by
      rintro e' ⟨⟩
      exact EventLib.quiet_assign e.ev
    refine ⟨hquiet, ?_⟩
    rcases sinceStop_cons hafter with ⟨rfl, -⟩ | ⟨after', rfl, hafter', -⟩
    · simp [waiting, TimerLife.call]
    · have := (ht after' hafter').woken
      rcases hc with rfl | ⟨i, -, rfl⟩ <;> simp [waiting, TimerLife.call] <;> omega
  | @woken e he =>
    rcases sinceStop_cons hafter with ⟨-, hc⟩ | ⟨after', rfl, hafter', -⟩
    · cases hc
    obtain ⟨hquiet, hwoken⟩ := ht after' hafter'
    refine ⟨?_, ?_⟩
    · rintro e' ⟨⟩
      exact (hquiet e he).activate
    · have hle := (t.call e (E.activate e.ev) .woken).waiting_le_one (E := E)
      rw [List.count_cons_self, List.count_cons_of_ne (by simp)]
      omega
  | @removed e he =>
    rcases sinceStop_cons hafter with ⟨-, hc⟩ | ⟨after', rfl, hafter', -⟩
    · cases hc
    have := (ht after' hafter').woken
    exact ⟨by simp, by simp [waiting]; omega⟩
  | @expired e he hdue => exact (hdue ((ht after hafter).quiet e he).due).elim
  | @ran e now he hactive _ =>
    rcases sinceStop_cons hafter with ⟨-, hc⟩ | ⟨after', rfl, hafter', -⟩
    · cases hc
    obtain ⟨hquiet, hwoken⟩ := ht after' hafter'
    refine ⟨?_, ?_⟩
    · rintro e' ⟨⟩
      exact (hquiet e he).process now
    · have hone : t.waiting E = 1 := by simp [waiting, he, hactive]
      simp [waiting, TimerLife.call]
      omega
  | finished => exact ⟨(ht after hafter).quiet, (ht after hafter).woken⟩

/-- A one-shot's callback is started once at most, and when it has ended the timer is not
registered any more. -/
def Once (t : TimerLife ε) : Prop :=
  ∀ i, .added i true ∈ t.history →
    t.history.count .ran ≤ 1 ∧ (.ran ∈ t.history → t.running = none → t.entry = none)

theorem Once.call {e : TimerEntry ε} {c : TimerCall} (h : t.Once) (he : t.entry = some e)
    (hc : ∀ i oneShot, c ≠ .added i oneShot) (hran : c ≠ .ran) (ev : ε) :
    (t.call e ev c).Once := by
  intro i hmem
  have hadded : .added i true ∈ t.history := by
    simpa [TimerLife.call, (hc i true).symm] using hmem
  obtain ⟨hcount, hgone⟩ := h i hadded
  refine ⟨by simpa [TimerLife.call, List.count_cons, hran] using hcount, fun hmem' hidle => ?_⟩
  have hran' : .ran ∈ t.history := by simpa [TimerLife.call, hran.symm] using hmem'
  simp [hgone hran' hidle] at he

theorem Move.once (h : t.Move E u) (hkept : t.Kept) (ht : t.Once) : u.Once := by
  cases h with
  | added hfresh => simp [Once, hfresh]
  | repeated now he _ => exact ht.call he (by simp) (by simp) _
  | disarmed he hc =>
    exact ht.call he (fun _ _ => hc.ne (by simp) (by simp)) (hc.ne (by simp) (by simp)) _
  | woken he => exact ht.call he (by simp) (by simp) _
  | removed he =>
    intro i hmem
    have hadded : .added i true ∈ t.history := by simpa using hmem
    exact ⟨by simpa using (ht i hadded).1, fun _ _ => rfl⟩
  | @expired e he _ =>
    intro i hmem
    obtain ⟨hcount, hgone⟩ := ht i hmem
    refine ⟨hcount, fun hran hidle => ?_⟩
    simp [hgone hran hidle] at he
  | @ran e now he _ hidle =>
    intro i hmem
    have hadded : .added i true ∈ t.history := by simpa [TimerLife.call] using hmem
    have hfirst : .ran ∉ t.history := fun hran => by simp [(ht i hadded).2 hran hidle] at he
    exact ⟨by simp [TimerLife.call, List.count_eq_zero_of_not_mem hfirst], by simp⟩
  | @finished oneShot hr hgone =>
    intro i hmem
    refine ⟨(ht i hmem).1, fun _ _ => ?_⟩
    by_contra hsome
    obtain ⟨e, he⟩ := Option.ne_none_iff_exists'.mp hsome
    have hone := hkept.added e i true he hmem
    exact hsome (hgone ((hkept.running e oneShot he hr).symm.trans hone))

/-- A timer that was woken is due to run until something else happens to it. -/
def Awake (E : EventLib ε) (t : TimerLife ε) : Prop :=
  t.history.head? = some .woken → ∃ e, t.entry = some e ∧ E.active e.ev = true

theorem Move.awake (h : t.Move E u) (ht : t.Awake E) : u.Awake E := by
  cases h with
  | @woken e he => exact fun _ => ⟨_, rfl, E.active_activate e.ev⟩
  | @expired e he hdue => exact fun _ => ⟨_, rfl, E.active_expire e.ev hdue⟩
  | finished => exact ht
  | disarmed he hc =>
    have hne := hc.ne (d := .woken) (by simp) (by simp)
    simp [Awake, TimerLife.call, hne]
  | added | repeated | removed | ran => simp [Awake, TimerLife.call]

/-- The moves keep all of this. -/
structure Sound (E : EventLib ε) (t : TimerLife ε) : Prop where
  scheduled : t.Scheduled E
  kept : t.Kept
  gone : t.Gone
  halted : ∀ after, SinceStop after t.history → t.Halted E after
  /-- At every earlier moment too. -/
  paced : ∀ history, history <:+ t.history → ∀ after, SinceStop after history →
    after.count .ran ≤ after.count .woken
  once : t.Once
  awake : t.Awake E

theorem sound_init : Sound E {} where
  scheduled := by simp [Scheduled]
  kept := ⟨by simp, by simp, by simp, by simp, by simp⟩
  gone := gone_of_not_mem (by simp)
  halted := by simp [SinceStop]
  paced := by simp [SinceStop]
  once := by simp [Once]
  awake := by simp [Awake]

theorem Move.history (h : t.Move E u) :
    u.history = t.history ∨ ∃ c, u.history = c :: t.history := by
  cases h with
  | expired => exact .inl rfl
  | finished => exact .inl rfl
  | added | repeated | disarmed | woken | removed | ran => exact .inr ⟨_, rfl⟩

theorem Move.sound (h : t.Move E u) (ht : t.Sound E) : u.Sound E where
  scheduled := h.scheduled ht.scheduled
  kept := h.kept ht.kept
  gone := h.gone ht.gone
  halted _ hafter := h.halted ht.halted hafter
  paced history hsuffix after hafter := by
    have hold (hsuffix : history <:+ t.history) := ht.paced history hsuffix after hafter
    rcases h.history with heq | ⟨c, heq⟩
    · exact hold (heq ▸ hsuffix)
    rw [heq] at hsuffix
    rcases List.suffix_cons_iff.mp hsuffix with hsame | hsuffix
    · have := (h.halted ht.halted (heq ▸ hsame ▸ hafter)).woken
      omega
    · exact hold hsuffix
  once := h.once ht.kept ht.once
  awake := h.awake ht.awake

theorem sound_of_moves (h : Relation.ReflTransGen (Move E) t u) (ht : t.Sound E) : u.Sound E := by
  induction h with
  | refl => exact ht
  | tail _ hmove ih => exact hmove.sound ih

end TimerLife


/-! ## Every timer of the queue -/

namespace TimerRun

variable {E : EventLib ε} {x y z : TimerRun ε} {id : TimerID} {e : TimerEntry ε}

def timer (x : TimerRun ε) (id : TimerID) : TimerLife ε where
  entry := x.queue.registry id
  history := x.history id
  running := x.queue.running.bind fun r => if r.1 = id then some r.2 else none

/-- Ids that have not been given out are not in use. -/
def Fresh (x : TimerRun ε) : Prop :=
  ∀ id : TimerID, x.queue.nextTimerId ≤ id.id → x.queue.registry id = none ∧ x.history id = []

/-- Every timer makes some moves, or none, and new ids stay new. -/
def Advances (E : EventLib ε) (x y : TimerRun ε) : Prop :=
  x.Fresh → (∀ id, Relation.ReflTransGen (TimerLife.Move E) (x.timer id) (y.timer id)) ∧ y.Fresh

theorem Advances.of_eq (h : y = x) : Advances E x y := by
  rw [h]
  exact fun hfresh => ⟨fun _ => .refl, hfresh⟩

theorem Advances.trans (h : Advances E x y) (h' : Advances E y z) : Advances E x z := by
  intro hfresh
  obtain ⟨hmoves, hy⟩ := h hfresh
  obtain ⟨hmoves', hz⟩ := h' hy
  exact ⟨fun id => (hmoves id).trans (hmoves' id), hz⟩

/-- One timer moves and the others do not. -/
theorem Advances.of_move (he : x.queue.registry id = some e)
    (hmove : (x.timer id).Move E (y.timer id))
    (hother : ∀ id', id' ≠ id → y.timer id' = x.timer id')
    (hnext : y.queue.nextTimerId = x.queue.nextTimerId) : Advances E x y := by
  intro hfresh
  refine ⟨fun id' => ?_, fun id' hid' => ?_⟩
  · by_cases hid : id' = id
    · subst hid
      exact .single hmove
    · rw [hother id' hid]
  · have hold := hfresh id' (hnext ▸ hid')
    have hid : id' ≠ id := by
      rintro rfl
      simp [he] at hold
    have hsame := hother id' hid
    exact ⟨(congrArg TimerLife.entry hsame).trans hold.1,
      (congrArg TimerLife.history hsame).trans hold.2⟩

/-- A timer gets another entry, or none, and `c` is recorded. -/
def put (x : TimerRun ε) (id : TimerID) (e : Option (TimerEntry ε)) (c : TimerCall) :
    TimerRun ε where
  queue := x.queue.set id e
  history := Function.update x.history id (c :: x.history id)

theorem timer_put_self (x : TimerRun ε) (id : TimerID) (e : Option (TimerEntry ε))
    (c : TimerCall) : (x.put id e c).timer id =
      { x.timer id with entry := e, history := c :: (x.timer id).history } := by
  simp [timer, put, TimerQueue.set]

theorem timer_put_of_ne {id' : TimerID} (x : TimerRun ε) (e : Option (TimerEntry ε))
    (c : TimerCall) (h : id' ≠ id) : (x.put id e c).timer id' = x.timer id' := by
  simp [timer, put, TimerQueue.set, h]

theorem advances_put {e' : Option (TimerEntry ε)} {c : TimerCall}
    (he : x.queue.registry id = some e)
    (h : (x.timer id).Move E { x.timer id with
      entry := e', history := c :: (x.timer id).history }) : Advances E x (x.put id e' c) :=
  .of_move he (timer_put_self x id e' c ▸ h) (fun _ hid => timer_put_of_ne x e' c hid) rfl

theorem mark_none (he : x.queue.registry id = none) (calls : List TimerCall) :
    (fun id' => x.queue.mark id calls id' ++ x.history id') = x.history := by
  funext id'
  by_cases hid : id' = id <;> simp_all [TimerQueue.mark]

theorem mark_some (he : x.queue.registry id = some e) (calls : List TimerCall) :
    (fun id' => x.queue.mark id calls id' ++ x.history id') =
      Function.update x.history id (calls ++ x.history id) := by
  funext id'
  by_cases hid : id' = id <;> simp_all [TimerQueue.mark]

theorem advances_remove (x : TimerRun ε) (id : TimerID) :
    Advances E x (x.step E (.remove id)) := by
  cases he : x.queue.registry id with
  | none =>
    have hsame : x.step E (.remove id) = x := by
      simp [step, TimerQueue.step, TimerQueue.remove, TimerQueue.calls, mark_none, he]
    exact .of_eq hsame
  | some e =>
    have hput : x.step E (.remove id) = x.put id none .removed := by
      simp [step, TimerQueue.step, TimerQueue.remove, TimerQueue.calls, mark_some he, he, put]
    exact hput ▸ advances_put he (.removed he)

theorem advances_stop (x : TimerRun ε) (id : TimerID) : Advances E x (x.step E (.stop id)) := by
  cases he : x.queue.registry id with
  | none =>
    have hsame : x.step E (.stop id) = x := by
      simp [step, TimerQueue.step, TimerQueue.stop, TimerQueue.calls, mark_none, he]
    exact .of_eq hsame
  | some e =>
    have hput : x.step E (.stop id) = x.put id (some (TimerQueue.disarm E e)) .stopped := by
      simp [step, TimerQueue.step, TimerQueue.stop, TimerQueue.calls, mark_some he, he, put]
    exact hput ▸ advances_put he (.disarmed he (.inl rfl))

theorem advances_wake (x : TimerRun ε) (id : TimerID) : Advances E x (x.step E (.wake id)) := by
  cases he : x.queue.registry id with
  | none =>
    have hsame : x.step E (.wake id) = x := by
      simp [step, TimerQueue.step, TimerQueue.wake, TimerQueue.calls, mark_none, he,
        Except.toOption]
    exact .of_eq hsame
  | some e =>
    have hput : x.step E (.wake id) = x.put id (some { e with ev := E.activate e.ev }) .woken := by
      simp [step, TimerQueue.step, TimerQueue.wake, TimerQueue.calls, mark_some he, he, put,
        Except.toOption]
    exact hput ▸ advances_put he (.woken he)

theorem advances_repeatEvery (x : TimerRun ε) (id : TimerID) (interval : Int) (now : Bool) :
    Advances E x (x.step E (.repeatEvery id interval now)) := by
  cases he : x.queue.registry id with
  | none =>
    have hsame : x.step E (.repeatEvery id interval now) = x := by
      simp [step, TimerQueue.step, TimerQueue.repeatEvery, TimerQueue.calls, mark_none, he,
        Except.toOption]
    exact .of_eq hsame
  | some e =>
    let e' := if 0 < interval then
        { e with ev := E.add x.queue.now (loopTimeToTimeval interval).micros e.ev }
      else TimerQueue.disarm E e
    have hset : Advances E x (x.put id (some e') (.repeated interval)) := by
      apply advances_put he
      unfold e'
      split_ifs with hpos
      · rw [micros_loopTimeToTimeval]
        exact .repeated x.queue.now he hpos
      · exact .disarmed he (.inr ⟨interval, by omega, rfl⟩)
    cases now with
    | false =>
      have hput : x.step E (.repeatEvery id interval false) =
          x.put id (some e') (.repeated interval) := by
        simp [step, TimerQueue.step, TimerQueue.repeatEvery, TimerQueue.calls, mark_some he, he,
          put, Except.toOption, e']
      exact hput ▸ hset
    | true =>
      -- the callback is woken after the new interval is set
      have hput : x.step E (.repeatEvery id interval true) =
          (x.put id (some e') (.repeated interval)).put id
            (some { e' with ev := E.activate e'.ev }) .woken := by
        simp [step, TimerQueue.step, TimerQueue.repeatEvery, TimerQueue.calls, mark_some he, he,
          put, Except.toOption, TimerQueue.set, e']
      have hentry : (x.put id (some e') (.repeated interval)).queue.registry id = some e' := by
        simp [put, TimerQueue.set]
      exact hput ▸ hset.trans (advances_put hentry (.woken hentry))

/-- The event of a new timer holds the interval, and a timer that is not a one-shot is pending
only if that is positive. -/
theorem newEvent_spec {ev : ε} {now : Nat} {interval : Int} {oneShot : Bool}
    (h : (if oneShot = true ∨ 0 < interval then
      E.add now (loopTimeToTimeval (max interval 0)).micros E.new else E.new) = ev) :
    E.interval ev = interval.toNat ∧ (oneShot = false → E.Steady ev) := by
  subst h
  rw [micros_loopTimeToTimeval]
  split_ifs with harm
  · refine ⟨?_, fun hone => EventLib.steady_add now ?_ _⟩
    · rw [EventLib.interval_add]
      omega
    simp only [hone, Bool.false_eq_true, false_or] at harm
    omega
  · exact ⟨by simp at harm ⊢; omega, fun _ => EventLib.quiet_new.steady⟩

theorem advances_addEntry (x : TimerRun ε) (interval : Int) (f created oneShot : Bool) :
    Advances E x ⟨(x.queue.addEntry E interval f created oneShot).2,
      fun id => x.queue.markNew interval f created oneShot id ++ x.history id⟩ := by
  intro hfresh
  have hnext {id : TimerID} (hid : ((x.queue.nextTimerId + 1 : Nat) : Int) ≤ id.id) :
      (x.queue.nextTimerId : Int) ≤ id.id := by omega
  unfold TimerQueue.addEntry TimerQueue.markNew
  generalize hev : (if oneShot = true ∨ 0 < interval then
    E.add x.queue.now (loopTimeToTimeval (max interval 0)).micros E.new else E.new) = ev
  dsimp only
  rw [hev]
  obtain ⟨hinterval, hsteady⟩ := newEvent_spec hev
  split_ifs with hf hstopped hcreated
  · exact Advances.of_eq (by simp_all) hfresh
  · exact Advances.of_eq (by simp_all) hfresh
  · have hcreated : created = false := by simpa using hcreated
    simp only [hcreated, Bool.false_eq_true, false_and, and_false, if_false, List.nil_append]
    exact ⟨fun _ => .refl, fun id hid => hfresh id (hnext hid)⟩
  let y : TimerRun ε := { x with queue := { x.queue with nextTimerId := x.queue.nextTimerId + 1 } }
  have hhistory : (fun id : TimerID => (if id = ⟨x.queue.nextTimerId⟩ ∧ f = true ∧ created = true ∧
        (!x.queue.registryStopped) = true then [.added interval oneShot] else []) ++ x.history id) =
      (y.put ⟨x.queue.nextTimerId⟩ (some ⟨ev, oneShot⟩) (.added interval oneShot)).history := by
    funext id
    by_cases hid : id = ⟨x.queue.nextTimerId⟩ <;> simp_all [y, put]
  rw [hhistory]
  refine ⟨fun id => ?_, fun id hid => ?_⟩
  · by_cases hid : id = ⟨x.queue.nextTimerId⟩
    · have hnew : (x.timer id).history = [] := (hfresh id (by simp [hid])).2
      have hmove := TimerLife.Move.added hnew hinterval hsteady
      subst hid
      exact .single (timer_put_self y _ _ _ ▸ hmove)
    · exact timer_put_of_ne y _ _ hid ▸ .refl
  · have hne : id ≠ ⟨x.queue.nextTimerId⟩ := by
      rintro rfl
      simp only [TimerQueue.set] at hid
      omega
    simpa [TimerQueue.set, put, y, hne] using hfresh id (hnext hid)

theorem advances_stopQueue (x : TimerRun ε) : Advances E x (x.step E .stopQueue) := by
  intro hfresh
  refine ⟨fun id => ?_, fun id hid => ?_⟩
  · cases he : x.queue.registry id with
    | none =>
      have hsame : (x.step E .stopQueue).timer id = x.timer id := by
        simp [timer, step, TimerQueue.step, TimerQueue.stopQueue, TimerQueue.calls,
          TimerQueue.mark, he]
      rw [hsame]
    | some e =>
      have hmove := TimerLife.Move.removed (E := E) (t := x.timer id) he
      have hgone : (x.step E .stopQueue).timer id =
          { x.timer id with entry := none, history := .removed :: (x.timer id).history } := by
        simp [timer, step, TimerQueue.step, TimerQueue.stopQueue, TimerQueue.calls,
          TimerQueue.mark, he]
      exact hgone ▸ .single hmove
  · obtain ⟨hentry, hhistory⟩ := hfresh id hid
    simp [step, TimerQueue.step, TimerQueue.stopQueue, TimerQueue.calls, TimerQueue.mark, hentry,
      hhistory]

theorem advances_expire (x : TimerRun ε) (id : TimerID)
    (h : ∃ e ∈ x.queue.registry id, E.due e.ev ≠ none) :
    Advances E x (x.step E (.expire id)) := by
  obtain ⟨e, he, hdue⟩ := h
  have he : x.queue.registry id = some e := he
  refine .of_move he ?_ ?_ ?_
  · have hmove := TimerLife.Move.expired (t := x.timer id) he hdue
    simpa [step, TimerQueue.step, TimerQueue.expire, TimerQueue.calls, TimerQueue.set, he, timer]
      using hmove
  · intro id' hid
    simp [step, TimerQueue.step, TimerQueue.expire, TimerQueue.calls, TimerQueue.set, he, timer,
      hid]
  · simp [step, TimerQueue.step, TimerQueue.expire, TimerQueue.set, he]

theorem advances_dispatch (hidle : x.queue.running = none)
    (h : ∃ e ∈ x.queue.registry id, E.active e.ev = true) :
    Advances E x (x.step E (.dispatch id)) := by
  obtain ⟨e, he, hactive⟩ := h
  have he : x.queue.registry id = some e := he
  refine .of_move he ?_ ?_ ?_
  · have hmove := TimerLife.Move.ran (t := x.timer id) x.queue.now he hactive
      (by simp [timer, hidle])
    simpa [step, TimerQueue.step, TimerQueue.dispatch, TimerQueue.calls, TimerQueue.mark, he,
      timer, TimerQueue.set, TimerLife.call] using hmove
  · intro id' hid
    simp [step, TimerQueue.step, TimerQueue.dispatch, TimerQueue.calls, TimerQueue.mark, he, timer,
      TimerQueue.set, hid, hidle, hid.symm]
  · simp [step, TimerQueue.step, TimerQueue.dispatch, he, TimerQueue.set]

/-- No callback runs any more. -/
def idle (x : TimerRun ε) : TimerRun ε := { x with queue := { x.queue with running := none } }

theorem advances_idle {oneShot : Bool} (hr : x.queue.running = some (id, oneShot))
    (hgone : oneShot = true → x.queue.registry id = none) : Advances E x x.idle := by
  intro hfresh
  refine ⟨fun id' => ?_, hfresh⟩
  by_cases hid : id = id'
  · subst hid
    have hmove := TimerLife.Move.finished (E := E) (t := x.timer id) (by simp [timer, hr]) hgone
    exact .single hmove
  · have hsame : x.idle.timer id' = x.timer id' := by simp [timer, idle, hr, hid]
    rw [hsame]

theorem remove_registry (x : TimerQueue ε) (id : TimerID) : (x.remove id).2.registry id = none := by
  unfold TimerQueue.remove
  split
  next he => exact he
  next => simp [TimerQueue.set]

theorem remove_running (x : TimerQueue ε) (id : TimerID) :
    (x.remove id).2.running = x.running := by
  unfold TimerQueue.remove
  split <;> rfl

theorem step_finish {oneShot : Bool} (hr : x.queue.running = some (id, oneShot)) (threw : Bool) :
    x.step E (.finish threw) = (if oneShot then x.step E (.remove id) else x).idle := by
  cases oneShot with
  | false => simp [step, TimerQueue.step, TimerQueue.finish, TimerQueue.calls, hr, idle]
  | true =>
    have hcalls : x.queue.calls (.finish threw) = x.queue.calls (.remove id) := by
      funext id'
      by_cases hid : id' = id
      · simp [TimerQueue.calls, hr, hid]
      · simp [TimerQueue.calls, TimerQueue.mark, hr, hid, Ne.symm hid]
    simp [step, TimerQueue.step, TimerQueue.finish, hcalls, hr, idle]

theorem advances_finish (hrunning : x.queue.running ≠ none) (threw : Bool) :
    Advances E x (x.step E (.finish threw)) := by
  obtain ⟨⟨id, oneShot⟩, hr⟩ := Option.ne_none_iff_exists'.mp hrunning
  rw [step_finish hr]
  cases oneShot with
  | false => exact advances_idle hr (by simp)
  | true =>
    have hr' : (x.step E (.remove id)).queue.running = some (id, true) :=
      (remove_running x.queue id).trans hr
    exact (advances_remove x id).trans (advances_idle hr' fun _ => remove_registry x.queue id)

theorem step_advances {op : TimerQueue.Op} (hen : x.queue.Enabled E op) :
    Advances E x (x.step E op) := by
  cases op with
  | addTimer interval f created => exact advances_addEntry x interval f created false
  | addWakeable f created => exact advances_addEntry x 0 f created false
  | callLater delay f created => exact advances_addEntry x delay f created true
  | repeatEvery id interval now => exact advances_repeatEvery x id interval now
  | wake id => exact advances_wake x id
  | stop id => exact advances_stop x id
  | remove id => exact advances_remove x id
  | stopQueue => exact advances_stopQueue x
  | otherQueue =>
    intro hfresh
    refine ⟨fun _ => .refl, fun id hid => hfresh id ?_⟩
    have hid : ((x.queue.nextTimerId + 1 : Nat) : Int) ≤ id.id := hid
    omega
  | advance micros => exact fun hfresh => ⟨fun _ => .refl, hfresh⟩
  | expire id =>
    obtain ⟨-, e, he, due, hdue, -⟩ := hen
    exact advances_expire x id ⟨e, he, Option.ne_none_iff_exists'.mpr ⟨due, hdue⟩⟩
  | dispatch id => exact advances_dispatch hen.1 hen.2
  | finish threw => exact advances_finish hen threw

/-- Every timer is sound in every state. -/
theorem sound_inductive :
    (machine E).Inductive fun x => x.Fresh ∧ ∀ id, (x.timer id).Sound E where
  initial := by
    rintro x rfl
    exact ⟨fun _ _ => ⟨rfl, rfl⟩, fun _ => TimerLife.sound_init⟩
  step := by
    rintro x op ⟨hfresh, hsound⟩ hen
    obtain ⟨hmoves, hfresh'⟩ := step_advances hen hfresh
    exact ⟨_, rfl, hfresh', fun id => TimerLife.sound_of_moves (hmoves id) (hsound id)⟩

theorem armed_iff : x.queue.armed E id = true ↔
    ∃ e, x.queue.registry id = some e ∧ E.pending e.ev = true := by
  unfold TimerQueue.armed
  cases x.queue.registry id <;> simp

theorem registered_iff (hsound : (x.timer id).Sound E) : x.queue.registry id ≠ none ↔
    (∃ i oneShot, .added i oneShot ∈ x.history id) ∧ .removed ∉ x.history id := by
  constructor
  · intro hreg
    obtain ⟨e, he⟩ := Option.ne_none_iff_exists'.mp hreg
    obtain ⟨i, hmem⟩ := hsound.kept.made e he
    exact ⟨⟨i, e.oneShot, hmem⟩, hsound.gone.not_mem he⟩
  · rintro ⟨⟨i, oneShot, hmem⟩, hremoved⟩
    exact hsound.kept.registered i oneShot hmem hremoved

/-- A timer that is not a one-shot is armed exactly while it is registered with a positive
interval. -/
theorem armed_iff_interval (hsound : (x.timer id).Sound E)
    (hkind : ∀ delay, .added delay true ∉ x.history id) :
    x.queue.armed E id = true ↔ x.queue.registry id ≠ none ∧
      ∃ i > 0, (x.history id).findSome? TimerCall.interval = some i := by
  rw [armed_iff]
  have hpending {e : TimerEntry ε} (he : x.queue.registry id = some e) : ∃ i,
      (x.history id).findSome? TimerCall.interval = some i ∧
        (E.pending e.ev = true ↔ 0 < i) := by
    obtain ⟨i, hi, hev, hsteady⟩ := hsound.scheduled e he
    obtain ⟨delay, hmem⟩ := hsound.kept.made e he
    have hone : e.oneShot = false := by
      by_contra hone
      rw [Bool.not_eq_false] at hone
      exact hkind delay (hone ▸ hmem)
    refine ⟨i, hi, ?_⟩
    rw [hsteady hone, hev, decide_eq_true_iff]
    omega
  constructor
  · rintro ⟨e, he, hpend⟩
    obtain ⟨i, hi, hiff⟩ := hpending he
    exact ⟨by simp [he], i, hiff.mp hpend, hi⟩
  · rintro ⟨hreg, i, hpos, hi⟩
    obtain ⟨e, he⟩ := Option.ne_none_iff_exists'.mp hreg
    obtain ⟨j, hj, hiff⟩ := hpending he
    obtain rfl : j = i := Option.some.inj (hj.symm.trans hi)
    exact ⟨e, he, hiff.mpr hpos⟩

/-- After a stop a timer is not armed until it is set to repeat. -/
theorem not_armed_of_sinceStop (hsound : (x.timer id).Sound E) {after : List TimerCall}
    (hafter : TimerLife.SinceStop after (x.history id)) : x.queue.armed E id = false := by
  by_contra harmed
  obtain ⟨e, he, hpending⟩ := armed_iff.mp (by simpa using harmed)
  simp [((hsound.halted after hafter).quiet e he).pending] at hpending

/-- In every state, for every timer, whatever library the events are from: it is registered
exactly if it was added and not removed; unless it is a delayed call, it is armed exactly while it
is registered and the latest of its calls has set a positive interval; since a stop, it has not
been armed, and its callback was not started more often than it was woken, until it is set to
repeat; it is not run once it is removed; a delayed call is run once at most, and then not
registered any more; and a timer that was just woken is due to run. -/
theorem timers_as_called (hx : (machine E).Reachable x) (id : TimerID) :
    (x.queue.registry id ≠ none ↔
      (∃ i oneShot, .added i oneShot ∈ x.history id) ∧ .removed ∉ x.history id) ∧
    ((∀ delay, .added delay true ∉ x.history id) →
      (x.queue.armed E id = true ↔ x.queue.registry id ≠ none ∧
        ∃ i > 0, (x.history id).findSome? TimerCall.interval = some i)) ∧
    (∀ later after before, x.history id = later ++ (after ++ .stopped :: before) →
      (∀ i, .repeated i ∈ after → i ≤ 0) →
        after.count .ran ≤ after.count .woken ∧ (later = [] → x.queue.armed E id = false)) ∧
    (∀ after before, x.history id = after ++ .removed :: before →
      .ran ∉ after ∧ x.queue.registry id = none) ∧
    (∀ delay, .added delay true ∈ x.history id → (x.history id).count .ran ≤ 1 ∧
      (.ran ∈ x.history id → (∀ oneShot, x.queue.running ≠ some (id, oneShot)) →
        x.queue.registry id = none)) ∧
    ((x.history id).head? = some .woken →
      ∃ e, x.queue.registry id = some e ∧ E.active e.ev = true) := by
  have hsound := (sound_inductive.reachable hx).2 id
  refine ⟨registered_iff hsound, armed_iff_interval hsound, ?_, ?_, ?_, hsound.awake⟩
  · intro later after before heq hrep
    refine ⟨hsound.paced _ ⟨later, heq.symm⟩ after ⟨⟨before, rfl⟩, hrep⟩, ?_⟩
    rintro rfl
    exact not_armed_of_sinceStop hsound ⟨⟨before, heq⟩, hrep⟩
  · intro after before heq
    exact ⟨hsound.gone.silent after before heq, hsound.gone.entry (by simp [timer, heq])⟩
  · intro delay hmem
    obtain ⟨hcount, hgone⟩ := hsound.once delay hmem
    refine ⟨hcount, fun hran hidle => hgone hran ?_⟩
    cases hr : x.queue.running with
    | none => simp [timer, hr]
    | some r => grind [timer]

instance (E : EventLib ε) (x : TimerRun ε) :
    (op : TimerQueue.Op) → Decidable ((machine E).enabled x op)
  | .expire id => inferInstanceAs (Decidable (x.queue.running = none ∧
    ∃ e ∈ x.queue.registry id, ∃ due ∈ E.due e.ev, due ≤ x.queue.now))
  | .dispatch id => inferInstanceAs
    (Decidable (x.queue.running = none ∧ ∃ e ∈ x.queue.registry id, E.active e.ev = true))
  | .finish _ => inferInstanceAs (Decidable (x.queue.running ≠ none))
  | .addTimer .. | .addWakeable .. | .callLater .. | .repeatEvery .. | .wake _ | .stop _
  | .remove _ | .stopQueue | .otherQueue | .advance _ => inferInstanceAs (Decidable True)

/-- Timer 0 is stopped by its own callback, for which its event was already scheduled again, and
woken twice. Timer 1 was set to repeat, 2 is a delayed call that has thrown, 3 was removed by its
own callback, and 4 was woken last. -/
theorem timers_as_called_stop :
    ∃ x, (machine PersistentEvent.lib).Reachable x ∧
      x.queue.armed PersistentEvent.lib ⟨0⟩ = false ∧
      x.history ⟨0⟩ = [.ran, .woken, .woken, .stopped, .ran, .added 10 false] ∧
      x.queue.armed PersistentEvent.lib ⟨1⟩ = true ∧ x.queue.registry ⟨2⟩ = none ∧
      x.queue.registry ⟨3⟩ = none ∧ ∃ e, x.queue.registry ⟨4⟩ = some e := by
  have hrun : ((machine PersistentEvent.lib).run {}
      [.addTimer 10 true true, .addWakeable true true, .callLater 0 true true,
        .addTimer 7 true true, .addWakeable true true, .wake ⟨4⟩, .repeatEvery ⟨1⟩ 5 false,
        .expire ⟨2⟩, .dispatch ⟨2⟩, .finish true, .advance 10, .expire ⟨0⟩, .expire ⟨3⟩,
        .dispatch ⟨0⟩, .stop ⟨0⟩, .wake ⟨0⟩, .wake ⟨0⟩, .finish false, .dispatch ⟨3⟩,
        .remove ⟨3⟩, .finish false, .dispatch ⟨0⟩]).map
      (fun x => ([0, 1, 2, 3, 4].map fun i => x.history ⟨i⟩, x.queue.running)) =
      some ([[.ran, .woken, .woken, .stopped, .ran, .added 10 false],
        [.repeated 5, .added 0 false], [.removed, .ran, .added 0 true],
        [.removed, .ran, .added 7 false], [.woken, .added 0 false]], some (⟨0⟩, false)) := by
    decide
  obtain ⟨x, hx, hview⟩ := Option.map_eq_some_iff.mp hrun
  simp only [Prod.mk.injEq, List.map_cons, List.map_nil, List.cons.injEq, and_true] at hview
  obtain ⟨⟨h0, h1, h2, h3, h4⟩, hr⟩ := hview
  have hreach := Machine.Reachable.run (.initial (show (machine _).initial {} from rfl)) hx
  have hmain := timers_as_called hreach
  refine ⟨x, hreach, ?_, h0, ?_, ?_, ?_, ?_⟩
  · exact ((hmain ⟨0⟩).2.2.1 [] [.ran, .woken, .woken] [.ran, .added 10 false] (by simp [h0])
      (by simp)).2 rfl
  · have hreg := (hmain ⟨1⟩).1.mpr ⟨⟨0, false, by simp [h1]⟩, by simp [h1]⟩
    exact ((hmain ⟨1⟩).2.1 (by simp [h1])).mpr ⟨hreg, 5, by decide, by rw [h1]; rfl⟩
  · exact ((hmain ⟨2⟩).2.2.2.2.1 0 (by simp [h2])).2 (by simp [h2]) (by simp [hr])
  · exact ((hmain ⟨3⟩).2.2.2.1 [] [.ran, .added 7 false] (by simp [h3])).2
  · obtain ⟨e, he, -⟩ := (hmain ⟨4⟩).2.2.2.2.2 (by simp [h4])
    exact ⟨e, he⟩

end TimerRun

end Libquic
