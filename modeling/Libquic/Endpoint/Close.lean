import Libquic.Endpoint.SendPackets
import Libquic.Lib.Machine

/-!
# The end of a connection, seen from the endpoint

How `_close_connection`, `_drop_connection`, `drain_connection` and `delete_connection`
work on the flags of one connection, and the jobs that lead to them. Jobs wait on the
loop and may run in any order.

The close callbacks of streams and of the connection are application code that runs in
the middle of these functions. What it does there, as far as it matters here, is a
`Script`: it schedules jobs, asks for a quiet close, throws, or closes the endpoint's
connections on the spot, as `Network::close` does; that runs close callbacks in turn. What a
stream's callback throws is caught by `Stream::closed` (a `std::exception`; others are left out).
Nothing between the connection's callback and the loop catches what that throws: each function on
the way skips the rest of its work, and the loop goes on with the next job. So the functions here
also say whether they end with an exception.
-/
namespace Libquic

open Lib

/-- Jobs that concern a connection: those that others schedule, the delayed cleanup, and
the close packet waiting for the socket to be writable. -/
inductive CloseJob where
  /-- `close_connection`; whether for `NGTCP2_ERR_IDLE_CLOSE`. -/
  | close (idle : Bool)
  | drop
  | drain
  | closeConns
  | cleanup
  | closeQueued
  deriving DecidableEq, Repr

/-- What becomes of the close packet: it cannot be written, the send returns a result, or
the send is blocked and the packet is queued. -/
inductive CloseOutcome where
  | notWritten
  | sent (result : IoResult)
  | queued
  deriving DecidableEq, Repr

/-- What close callbacks do. -/
inductive CloseScript where
  | done
  | throw
  | schedule (job : CloseJob) (next : CloseScript)
  | setCloseQuietly (next : CloseScript)
  /-- Close all connections now; what the callbacks then do is `streams` and `callback`, and
  whether an exception of theirs is caught is `catches`. -/
  | closeConns (outcome : CloseOutcome) (streams callback : CloseScript) (catches : Bool)
      (next : CloseScript)
  deriving DecidableEq, Repr

structure ClosingConn where
  /-- The connection is in the endpoint's `conns`. -/
  inConns : Bool := true
  closing : Bool := false
  draining : Bool := false
  closeQuietly : Bool := false
  inbound : Bool := false
  handshakeConfirmed : Bool := false
  connClosedCb : Bool := false
  /-- The endpoint's `connection_close_cb`. -/
  connectionCloseCb : Bool := false
  jobs : List CloseJob := []
  /-- How many times a connection-closed callback has been called for the connection. -/
  fired : Nat := 0
  deriving DecidableEq, Repr

namespace ClosingConn

def schedule (x : ClosingConn) (job : CloseJob) : ClosingConn := { x with jobs := x.jobs ++ [job] }

def deleteConnection (x : ClosingConn) : ClosingConn := { x with closing := true, inConns := false }

/-- `_execute_close_hooks`. `streams` is what the streams' close callbacks do, all together,
and `callback` what the connection's does. -/
def executeCloseHooks (streams callback : ClosingConn → ClosingConn × Bool) (x : ClosingConn) :
    ClosingConn × Bool :=
  if x.closeQuietly then (x, false)
  else
    let x := (streams x).1
    if x.inbound && !x.handshakeConfirmed then (x, false)
    else if x.connClosedCb || x.connectionCloseCb then callback { x with fired := x.fired + 1 }
    else (x, false)

/-- `_drop_connection` -/
def dropConnection (hooks : ClosingConn → ClosingConn × Bool) (x : ClosingConn) :
    ClosingConn × Bool :=
  let (x, thrown) := hooks x
  if thrown then (x, true) else (x.deleteConnection, false)

/-- `send_or_queue_packet` for the close packet, once it is written. -/
def sendClose (outcome : CloseOutcome) (x : ClosingConn) : ClosingConn :=
  match outcome with
  | .sent .ok => x
  | .sent _ => if x.inConns then x.deleteConnection else x
  | _ => x.schedule .closeQueued

/-- `_close_connection` -/
def closeConnection (hooks : ClosingConn → ClosingConn × Bool) (outcome : CloseOutcome)
    (idle : Bool) (x : ClosingConn) : ClosingConn × Bool :=
  if x.closing || x.draining then (x, false)
  else
    let x := { x with closing := true }
    if idle then x.dropConnection hooks
    else
      let (x, thrown) := hooks x
      if thrown then (x, true)
      else if outcome = .notWritten then (x.deleteConnection, false)
      else ((x.schedule .cleanup).sendClose outcome, false)

/-- `_close_conns`, as far as this connection is concerned. -/
def closeConns (hooks : ClosingConn → ClosingConn × Bool) (outcome : CloseOutcome)
    (x : ClosingConn) : ClosingConn × Bool :=
  if x.inConns then x.closeConnection hooks outcome false else (x, false)

/-- Run what close callbacks do. -/
def run : CloseScript → ClosingConn → ClosingConn × Bool
  | .done, x => (x, false)
  | .throw, x => (x, true)
  | .schedule job next, x => run next (x.schedule job)
  | .setCloseQuietly next, x => run next { x with closeQuietly := true }
  | .closeConns outcome streams callback catches next, x =>
    let (x, thrown) := x.closeConns (executeCloseHooks (run streams) (run callback)) outcome
    if thrown && !catches then (x, true) else run next x

def drainConnection (hooks : ClosingConn → ClosingConn × Bool) (x : ClosingConn) :
    ClosingConn × Bool :=
  if x.draining || x.closing then (x, false)
  else
    let (x, thrown) := hooks { x with draining := true }
    if thrown then (x, true) else (x.schedule .cleanup, false)

/-- What a job meets when it runs: what close callbacks do, and what becomes of a close
packet. -/
structure Env where
  streams : CloseScript := .done
  callback : CloseScript := .done
  outcome : CloseOutcome := .sent .ok
  deriving DecidableEq, Repr

def Env.hooks (env : Env) : ClosingConn → ClosingConn × Bool :=
  executeCloseHooks (run env.streams) (run env.callback)

/-- Run one job; the loop swallows its exception. Draining holds on to the connection itself; the
others look it up by id. -/
def runJob (env : Env) (x : ClosingConn) : CloseJob → ClosingConn
  | .close idle => if x.inConns then (x.closeConnection env.hooks env.outcome idle).1 else x
  | .drop => if x.inConns then (x.dropConnection env.hooks).1 else x
  | .drain => (x.drainConnection env.hooks).1
  | .closeConns => (x.closeConns env.hooks env.outcome).1
  | .cleanup => if x.inConns then x.deleteConnection else x
  | .closeQueued => x.sendClose env.outcome

inductive Op where
  /-- Others schedule a job: `close_connection`, `drop_connection`, `close_conns`, or the
  draining of the connection. -/
  | schedule (job : CloseJob)
  /-- Run the `n`-th of the jobs that wait. -/
  | run (n : Nat) (env : Env)
  | setCloseQuietly
  | confirmHandshake

def step (x : ClosingConn) : Op → ClosingConn
  | .schedule job => x.schedule job
  | .run n env =>
    match x.jobs[n]? with
    | none => x
    | some job => runJob env { x with jobs := x.jobs.eraseIdx n } job
  | .setCloseQuietly => { x with closeQuietly := true }
  | .confirmHandshake => { x with handshakeConfirmed := true }

/-- Cleanup and queued packets are not for others to schedule. -/
def Enabled (x : ClosingConn) : Op → Prop
  | .schedule job => job ≠ .cleanup ∧ job ≠ .closeQueued
  | .run n _ => n < x.jobs.length
  | _ => True

instance (x : ClosingConn) : (op : Op) → Decidable (x.Enabled op)
  | .schedule _ => inferInstanceAs (Decidable (_ ∧ _))
  | .run _ _ => inferInstanceAs (Decidable (_ < _))
  | .setCloseQuietly => inferInstanceAs (Decidable True)
  | .confirmHandshake => inferInstanceAs (Decidable True)

def machine (given : ClosingConn → Op → Prop) : Machine ClosingConn Op Fault where
  initial x := x.inConns = true ∧ x.closing = false ∧ x.draining = false ∧ x.jobs = [] ∧ x.fired = 0
  enabled x op := x.Enabled op ∧ given x op
  step x op := .ok (x.step op)

/-- Running the close hooks calls a callback. -/
def Notifies (x : ClosingConn) : Prop :=
  x.closeQuietly = false ∧ (x.inbound = false ∨ x.handshakeConfirmed = true) ∧
    (x.connClosedCb = true ∨ x.connectionCloseCb = true)

end ClosingConn

/-- The script closes connections on the spot. -/
def CloseScript.closesConns : CloseScript → Bool
  | .done => false
  | .throw => false
  | .schedule _ next => next.closesConns
  | .setCloseQuietly next => next.closesConns
  | .closeConns .. => true

/-- The script ends with an exception of its own. -/
def CloseScript.throws : CloseScript → Bool
  | .done => false
  | .throw => true
  | .schedule _ next => next.throws
  | .setCloseQuietly next => next.throws
  | .closeConns _ _ _ _ next => next.throws

namespace ClosingConn

/-- The callbacks of a drop do not close connections on the spot, and the connection's own does not
throw. -/
structure Calm (env : Env) : Prop where
  streams : env.streams.closesConns = false
  callback : env.callback.closesConns = false
  returns : env.callback.throws = false

/-- A drop of a connection that would notify finds it neither closing nor draining, and its
callbacks are calm. -/
def DropsFirst (x : ClosingConn) : Op → Prop
  | .run n env => x.jobs[n]? = some .drop → x.inConns = true → x.Notifies →
      x.closing = false ∧ x.draining = false ∧ Calm env
  | _ => True

instance (env : Env) : Decidable (Calm env) :=
  decidable_of_iff (env.streams.closesConns = false ∧ env.callback.closesConns = false ∧
    env.callback.throws = false) ⟨fun h => ⟨h.1, h.2.1, h.2.2⟩, fun h => ⟨h.1, h.2, h.3⟩⟩

instance (x : ClosingConn) : Decidable x.Notifies := inferInstanceAs (Decidable (_ ∧ _ ∧ _))

instance (x : ClosingConn) : (op : Op) → Decidable (x.DropsFirst op)
  | .run _ _ => inferInstanceAs (Decidable (_ → _ → _ → _))
  | .schedule _ => inferInstanceAs (Decidable True)
  | .setCloseQuietly => inferInstanceAs (Decidable True)
  | .confirmHandshake => inferInstanceAs (Decidable True)

instance (given : ClosingConn → Op → Prop) [∀ x op, Decidable (given x op)] (x : ClosingConn)
    (op : Op) : Decidable ((machine given).enabled x op) :=
  inferInstanceAs (Decidable (x.Enabled op ∧ given x op))

/-! ## What callbacks can do -/

variable {x : ClosingConn}

/-- Once a connection is closing or draining, callbacks do not run its close hooks again. -/
theorem run_ended (s : CloseScript) (h : x.closing = true ∨ x.draining = true) :
    (run s x).1.fired = x.fired ∧ ((run s x).1.closing = true ∨ (run s x).1.draining = true) := by
  induction s generalizing x with
  | done => exact ⟨rfl, h⟩
  | throw => exact ⟨rfl, h⟩
  | schedule job next ih => exact ih h
  | setCloseQuietly next ih => exact ih h
  | closeConns outcome streams callback catches next _ _ ih =>
    have hsame (hooks : ClosingConn → ClosingConn × Bool) :
        x.closeConns hooks outcome = (x, false) := by
      simp [closeConns, closeConnection, h]
    simp only [run, hsame, Bool.false_and, Bool.false_eq_true, if_false]
    exact ih h

/-- Callbacks that close nothing leave the flags alone, and end as they say. -/
theorem run_closesConns {s : CloseScript} (hs : s.closesConns = false) :
    (run s x).1.fired = x.fired ∧ (run s x).1.closing = x.closing ∧
      (run s x).1.draining = x.draining ∧ (run s x).2 = s.throws := by
  induction s generalizing x with
  | done => exact ⟨rfl, rfl, rfl, rfl⟩
  | throw => exact ⟨rfl, rfl, rfl, rfl⟩
  | schedule job next ih => exact ih hs
  | setCloseQuietly next ih => exact ih hs
  | closeConns => simp [CloseScript.closesConns] at hs

/-- The connection has no callback to call, or it is one that the application has not been
told about. -/
def Silent (x : ClosingConn) : Prop :=
  (x.inbound = true ∧ x.handshakeConfirmed = false) ∨
    (x.connClosedCb = false ∧ x.connectionCloseCb = false)

theorem silent_of_not_notifies (h : ¬ x.Notifies) (hq : x.closeQuietly = false) : x.Silent := by
  unfold Notifies at h
  unfold Silent
  grind

/-- A function that calls no callback for a silent connection. -/
def Mute (f : ClosingConn → ClosingConn × Bool) : Prop :=
  ∀ x, x.Silent → (f x).1.fired = x.fired ∧ (f x).1.Silent

theorem Mute.hooks {streams : ClosingConn → ClosingConn × Bool} (hs : Mute streams)
    (callback : ClosingConn → ClosingConn × Bool) : Mute (executeCloseHooks streams callback) := by
  intro x hx
  unfold executeCloseHooks
  by_cases hq : x.closeQuietly = true
  · rw [if_pos hq]
    exact ⟨rfl, hx⟩
  · obtain ⟨hfired, hsilent⟩ := hs x hx
    rw [if_neg hq]
    dsimp only
    split_ifs with hnew hcb
    · exact ⟨hfired, hsilent⟩
    · unfold Silent at hsilent
      grind
    · exact ⟨hfired, hsilent⟩

theorem sendClose_silent (outcome : CloseOutcome) (hx : x.Silent) :
    (x.sendClose outcome).fired = x.fired ∧ (x.sendClose outcome).Silent := by
  unfold sendClose
  split
  · exact ⟨rfl, hx⟩
  · split_ifs
    · exact ⟨rfl, hx⟩
    · exact ⟨rfl, hx⟩
  · exact ⟨rfl, hx⟩

theorem Mute.closeConns {hooks : ClosingConn → ClosingConn × Bool} (hh : Mute hooks)
    (outcome : CloseOutcome) : Mute (closeConns hooks outcome) := by
  intro x hx
  obtain ⟨hfired, hsilent⟩ := hh { x with closing := true } hx
  unfold ClosingConn.closeConns closeConnection
  dsimp only
  simp only [Bool.false_eq_true, if_false]
  split_ifs
  · exact ⟨rfl, hx⟩
  · exact ⟨hfired, hsilent⟩
  · exact ⟨hfired, hsilent⟩
  · obtain ⟨hsent, hsilent'⟩ := sendClose_silent outcome
      (x := (hooks { x with closing := true }).1.schedule .cleanup) hsilent
    exact ⟨hsent.trans hfired, hsilent'⟩
  · exact ⟨rfl, hx⟩

/-- Callbacks never make a connection notify. -/
theorem run_mute (s : CloseScript) : Mute (run s) := by
  induction s with
  | done => exact fun x hx => ⟨rfl, hx⟩
  | throw => exact fun x hx => ⟨rfl, hx⟩
  | schedule job next ih => exact fun x hx => ih (x.schedule job) hx
  | setCloseQuietly next ih => exact fun x hx => ih { x with closeQuietly := true } hx
  | closeConns outcome streams callback catches next ihs _ ihn =>
    intro x hx
    obtain ⟨hfired, hsilent⟩ := (ihs.hooks (run callback)).closeConns outcome x hx
    obtain ⟨hnext, hsilent'⟩ := ihn _ hsilent
    simp only [run]
    split_ifs
    · exact ⟨hfired, hsilent⟩
    · exact ⟨hnext.trans hfired, hsilent'⟩

/-! ## The invariant -/

/-- The callback has been called at most once, and then the connection is closing or
draining. -/
structure Once (x : ClosingConn) : Prop where
  le : x.fired ≤ 1
  ended : x.fired = 1 → x.closing = true ∨ x.draining = true

/-- The hooks of a connection that has been marked as closing or draining call the callback
at most once. -/
theorem hooks_ended (env : Env) (h : x.closing = true ∨ x.draining = true) :
    (env.hooks x).1.fired ≤ x.fired + 1 ∧
      ((env.hooks x).1.closing = true ∨ (env.hooks x).1.draining = true) := by
  obtain ⟨hfired, hend⟩ := run_ended env.streams h
  unfold Env.hooks executeCloseHooks
  dsimp only
  have hle : (run env.streams x).1.fired ≤ x.fired + 1 := by omega
  split_ifs
  · exact ⟨Nat.le_succ _, h⟩
  · exact ⟨hle, hend⟩
  · obtain ⟨hfired', hend'⟩ := run_ended (x := { (run env.streams x).1 with
      fired := (run env.streams x).1.fired + 1 }) env.callback hend
    exact ⟨hfired'.trans_le (Nat.succ_le_succ hfired.le), hend'⟩
  · exact ⟨hle, hend⟩

theorem sendClose_spec (outcome : CloseOutcome) (x : ClosingConn) :
    (x.sendClose outcome).fired = x.fired ∧ (x.closing = true ∨ x.draining = true →
      (x.sendClose outcome).closing = true ∨ (x.sendClose outcome).draining = true) := by
  unfold sendClose
  split
  · exact ⟨rfl, id⟩
  · split_ifs
    · exact ⟨rfl, fun _ => .inl rfl⟩
    · exact ⟨rfl, id⟩
  · exact ⟨rfl, id⟩

/-- While the connection is neither closing nor draining, no callback has been called. -/
theorem Once.fired_eq_zero (h : x.Once) (hend : ¬(x.closing = true ∨ x.draining = true)) :
    x.fired = 0 := by
  by_contra hne
  have := h.le
  exact hend (h.ended (by omega))

/-- Closing and draining mark the connection before they run its hooks. -/
theorem once_of_hooks {y : ClosingConn} (hzero : x.fired = 0)
    (h : y.fired ≤ x.fired + 1 ∧ (y.closing = true ∨ y.draining = true)) : y.Once :=
  ⟨by omega, fun _ => h.2⟩

theorem Once.delete (h : x.Once) : x.deleteConnection.Once := ⟨h.le, fun _ => .inl rfl⟩

theorem Once.schedule (h : x.Once) (job : CloseJob) : (x.schedule job).Once := ⟨h.le, h.ended⟩

theorem Once.closeConnection (h : x.Once) (env : Env) (idle : Bool) :
    (x.closeConnection env.hooks env.outcome idle).1.Once := by
  unfold ClosingConn.closeConnection ClosingConn.dropConnection
  dsimp only
  by_cases hend : (x.closing || x.draining) = true
  · rw [if_pos hend]
    exact h
  · have hzero := h.fired_eq_zero (by simpa using hend)
    have hhooks : (env.hooks { x with closing := true }).1.Once :=
      once_of_hooks (x := { x with closing := true }) hzero (hooks_ended env (.inl rfl))
    rw [if_neg hend]
    split_ifs
    · exact hhooks
    · exact hhooks.delete
    · exact hhooks
    · exact hhooks.delete
    · obtain ⟨hsame, hkeep⟩ := sendClose_spec env.outcome
        ((env.hooks { x with closing := true }).1.schedule .cleanup)
      exact ⟨hsame.trans_le hhooks.le, fun hone => hkeep (hhooks.ended (hsame.symm.trans hone))⟩

theorem Once.drainConnection (h : x.Once) (env : Env) : (x.drainConnection env.hooks).1.Once := by
  unfold ClosingConn.drainConnection
  split_ifs with hend
  · exact h
  · have hzero := h.fired_eq_zero (by simpa [or_comm] using hend)
    have hhooks : (env.hooks { x with draining := true }).1.Once :=
      once_of_hooks (x := { x with draining := true }) hzero (hooks_ended env (.inr rfl))
    dsimp only
    split_ifs
    · exact hhooks
    · exact hhooks.schedule .cleanup

/-- The hooks of a connection that does not notify call no callback. -/
theorem Once.hooks_silent (h : x.Once) (env : Env) (hn : ¬ x.Notifies) : (env.hooks x).1.Once := by
  by_cases hq : x.closeQuietly = true
  · simpa [Env.hooks, executeCloseHooks, hq] using h
  · have hsilent := silent_of_not_notifies hn (by simpa using hq)
    have hmute := ((run_mute env.streams).hooks (run env.callback) x hsilent).1
    refine ⟨hmute.trans_le h.le, fun hone => ?_⟩
    exact (hooks_ended env (h.ended (hmute.symm.trans hone))).2

/-- Calm hooks call the callback at most once, and do not throw after that. -/
theorem hooks_calm {env : Env} (hcalm : Calm env) (hzero : x.fired = 0) :
    (env.hooks x).1.fired = 0 ∨ (env.hooks x).1.fired = 1 ∧ (env.hooks x).2 = false := by
  obtain ⟨hfired, -⟩ := run_closesConns (x := x) hcalm.streams
  unfold Env.hooks executeCloseHooks
  dsimp only
  split_ifs
  · exact .inl hzero
  · exact .inl (hfired.trans hzero)
  · obtain ⟨hfired', -, -, hthrows⟩ := run_closesConns (x := { (run env.streams x).1 with
      fired := (run env.streams x).1.fired + 1 }) hcalm.callback
    refine .inr ⟨hfired'.trans ?_, hthrows.trans hcalm.returns⟩
    dsimp only
    omega
  · exact .inl (hfired.trans hzero)

/-- A drop calls the callback at most once if nothing has called it before, nothing that runs in
it does, and it does not throw. -/
theorem Once.dropConnection (h : x.Once) (env : Env)
    (hdrop : x.Notifies → x.closing = false ∧ x.draining = false ∧ Calm env) :
    (x.dropConnection env.hooks).1.Once := by
  unfold ClosingConn.dropConnection
  dsimp only
  by_cases hn : x.Notifies
  · obtain ⟨hc, hd, hcalm⟩ := hdrop hn
    rcases hooks_calm hcalm (h.fired_eq_zero (by simp [hc, hd])) with hnone | ⟨hone, hreturns⟩
    · have hhooks : (env.hooks x).1.Once := ⟨by omega, fun hone => by omega⟩
      split_ifs
      · exact hhooks
      · exact hhooks.delete
    · rw [if_neg (by simp [hreturns])]
      exact ⟨hone.le, fun _ => .inl rfl⟩
  · have hhooks := h.hooks_silent env hn
    split_ifs
    · exact hhooks
    · exact hhooks.delete

theorem Once.runJob (h : x.Once) (env : Env) (job : CloseJob)
    (hdrop : job = .drop → x.inConns = true → x.Notifies →
      x.closing = false ∧ x.draining = false ∧ Calm env) : (runJob env x job).Once := by
  cases job with
  | close idle =>
    simp only [ClosingConn.runJob]
    split_ifs
    · exact h.closeConnection env idle
    · exact h
  | drop =>
    simp only [ClosingConn.runJob]
    split_ifs with hin
    · exact h.dropConnection env (hdrop rfl hin)
    · exact h
  | drain => exact h.drainConnection env
  | closeConns =>
    simp only [ClosingConn.runJob, ClosingConn.closeConns]
    split_ifs
    · exact h.closeConnection env false
    · exact h
  | cleanup =>
    simp only [ClosingConn.runJob]
    split_ifs
    · exact h.delete
    · exact h
  | closeQueued =>
    obtain ⟨hsame, hkeep⟩ := sendClose_spec env.outcome x
    exact ⟨hsame.trans_le h.le, fun hone => hkeep (h.ended (hsame.symm.trans hone))⟩

theorem once_inductive : (machine DropsFirst).Inductive Once where
  initial := by
    rintro x ⟨-, -, -, -, hfired⟩
    exact ⟨by omega, fun hone => by omega⟩
  step := by
    rintro x op h ⟨-, hdrop⟩
    refine ⟨_, rfl, ?_⟩
    cases op with
    | schedule job => exact ⟨h.le, h.ended⟩
    | setCloseQuietly => exact ⟨h.le, h.ended⟩
    | confirmHandshake => exact ⟨h.le, h.ended⟩
    | run n env =>
      unfold ClosingConn.step
      dsimp only
      cases hjob : x.jobs[n]? with
      | none => exact h
      | some job =>
        have hx : Once { x with jobs := x.jobs.eraseIdx n } := ⟨h.le, h.ended⟩
        refine hx.runJob env job fun heq => ?_
        exact hdrop (heq ▸ hjob)

/-! ## The callback is called at most once -/

variable (x) in
/-- In runs where every drop that notifies comes first and its callbacks are calm, the
connection-closed callback is called at most once. -/
theorem closed_callback_at_most_once (h : (machine DropsFirst).Reachable x) : x.fired ≤ 1 :=
  (once_inductive.reachable h).le

/-- A connection whose callback throws when it is closed, so that no cleanup is scheduled, and
another one that is closed, cleaned up, and then dropped. -/
theorem closed_callback_at_most_once_close :
    (∃ x : ClosingConn, (machine DropsFirst).Reachable x ∧ x.inConns = true ∧ x.fired = 1 ∧
      x.fired ≤ 1) ∧
    ∃ x : ClosingConn, (machine DropsFirst).Reachable x ∧ x.inConns = false ∧ x.fired = 1 ∧
      x.fired ≤ 1 := by
  have hinit : (machine DropsFirst).Reachable { connClosedCb := true } :=
    .initial ⟨rfl, rfl, rfl, rfl, rfl⟩
  have hthrown : (machine DropsFirst).run { connClosedCb := true }
      [.schedule (.close false), .run 0 { callback := .throw }] =
      some { connClosedCb := true, closing := true, fired := 1 } := by decide
  have hrun : (machine DropsFirst).run { connClosedCb := true }
      [.schedule (.close false), .run 0 {}, .run 0 {}, .schedule .drop, .run 0 {}] =
      some { connClosedCb := true, closing := true, inConns := false, fired := 1 } := by decide
  exact ⟨⟨_, hinit.run hthrown, rfl, rfl, closed_callback_at_most_once _ (hinit.run hthrown)⟩,
    _, hinit.run hrun, rfl, rfl, closed_callback_at_most_once _ (hinit.run hrun)⟩

/-- A failed send schedules both a close, for a packet that is too big, and a drop: each
calls the callback. And a drop whose callback throws does not delete the connection, so that
another drop calls it again. -/
theorem close_then_drop_calls_twice :
    (∃ x, (machine fun _ _ => True).Reachable x ∧ x.fired = 2) ∧
    ∃ x y : ClosingConn, (machine fun _ _ => True).Reachable x ∧ x.fired = 1 ∧ x.inConns = true ∧
      x.closing = false ∧ x.draining = false ∧ x.jobs = [.drop] ∧ x.step (.run 0 {}) = y ∧
      y.fired = 2 := by
  have hinit : (machine fun _ _ => True).Reachable { connClosedCb := true } :=
    .initial ⟨rfl, rfl, rfl, rfl, rfl⟩
  have hrun : (machine fun _ _ => True).run { connClosedCb := true }
      [.schedule (.close false), .schedule .drop, .run 0 {}, .run 0 {}] =
      some { connClosedCb := true, closing := true, inConns := false, jobs := [.cleanup],
             fired := 2 } := by decide
  have hthrown : (machine fun _ _ => True).run { connClosedCb := true }
      [.schedule .drop, .schedule .drop, .run 0 { callback := .throw }] =
      some { connClosedCb := true, jobs := [.drop], fired := 1 } := by decide
  exact ⟨⟨_, hinit.run hrun, rfl⟩, _, _, hinit.run hthrown, rfl, rfl, rfl, rfl, rfl, rfl, rfl⟩

end ClosingConn

end Libquic
