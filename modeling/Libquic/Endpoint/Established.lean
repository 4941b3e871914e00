import Libquic.Endpoint.Close

/-!
# Connections that the application has been told about

An inbound connection is announced by `check_established`: at the end of the handshake, or before
that for an early stream or datagram. Its end is announced by `_execute_close_hooks`, which asks
for the end of the handshake instead. The two agree unless early data announced a connection whose
handshake was not over when it ended.
-/
namespace Libquic

open Lib

namespace ClosingConn

variable {x y : ClosingConn}

/-! ## What the close hooks leave -/

/-- Whether the closed callback is called is decided by the same flags, and no call is forgotten. -/
structure Kept (x y : ClosingConn) : Prop where
  inbound : y.inbound = x.inbound
  handshakeConfirmed : y.handshakeConfirmed = x.handshakeConfirmed
  connClosedCb : y.connClosedCb = x.connClosedCb
  connectionCloseCb : y.connectionCloseCb = x.connectionCloseCb
  fired : x.fired ≤ y.fired

theorem Kept.refl (x : ClosingConn) : Kept x x := ⟨rfl, rfl, rfl, rfl, le_rfl⟩

theorem Kept.trans {z : ClosingConn} (h : Kept x y) (h' : Kept y z) : Kept x z where
  inbound := h'.inbound.trans h.inbound
  handshakeConfirmed := h'.handshakeConfirmed.trans h.handshakeConfirmed
  connClosedCb := h'.connClosedCb.trans h.connClosedCb
  connectionCloseCb := h'.connectionCloseCb.trans h.connectionCloseCb
  fired := h.fired.trans h'.fired

theorem kept_schedule (x : ClosingConn) (job : CloseJob) : Kept x (x.schedule job) :=
  ⟨rfl, rfl, rfl, rfl, le_rfl⟩

theorem kept_hooks {streams callback : ClosingConn → ClosingConn × Bool}
    (hs : ∀ x, Kept x (streams x).1) (hc : ∀ x, Kept x (callback x).1) (x : ClosingConn) :
    Kept x (executeCloseHooks streams callback x).1 := by
  unfold executeCloseHooks
  dsimp only
  split_ifs
  · exact .refl x
  · exact hs x
  · have hfire : Kept (streams x).1 { (streams x).1 with fired := (streams x).1.fired + 1 } :=
      ⟨rfl, rfl, rfl, rfl, Nat.le_succ _⟩
    exact ((hs x).trans hfire).trans (hc _)
  · exact hs x

theorem kept_sendClose (outcome : CloseOutcome) (x : ClosingConn) :
    Kept x (x.sendClose outcome) := by
  unfold sendClose
  split
  · exact .refl x
  · split_ifs <;> exact ⟨rfl, rfl, rfl, rfl, le_rfl⟩
  · exact ⟨rfl, rfl, rfl, rfl, le_rfl⟩

theorem kept_dropConnection {hooks : ClosingConn → ClosingConn × Bool}
    (hh : ∀ x, Kept x (hooks x).1) (x : ClosingConn) : Kept x (x.dropConnection hooks).1 := by
  unfold dropConnection
  dsimp only
  split_ifs
  · exact hh x
  · exact (hh x).trans ⟨rfl, rfl, rfl, rfl, le_rfl⟩

theorem kept_closeConnection {hooks : ClosingConn → ClosingConn × Bool}
    (hh : ∀ x, Kept x (hooks x).1) (outcome : CloseOutcome) (idle : Bool) (x : ClosingConn) :
    Kept x (x.closeConnection hooks outcome idle).1 := by
  have hmark : Kept x { x with closing := true } := ⟨rfl, rfl, rfl, rfl, le_rfl⟩
  have hhooks := hmark.trans (hh _)
  unfold closeConnection
  dsimp only
  split_ifs
  · exact .refl x
  · exact hmark.trans (kept_dropConnection hh _)
  · exact hhooks
  · exact hhooks.trans ⟨rfl, rfl, rfl, rfl, le_rfl⟩
  · exact (hhooks.trans (kept_schedule _ .cleanup)).trans (kept_sendClose outcome _)

theorem kept_closeConns {hooks : ClosingConn → ClosingConn × Bool} (hh : ∀ x, Kept x (hooks x).1)
    (outcome : CloseOutcome) (x : ClosingConn) : Kept x (x.closeConns hooks outcome).1 := by
  unfold closeConns
  split_ifs
  · exact kept_closeConnection hh outcome false x
  · exact .refl x

theorem kept_run (s : CloseScript) (x : ClosingConn) : Kept x (run s x).1 := by
  induction s generalizing x with
  | done => exact .refl x
  | throw => exact .refl x
  | schedule job next ih => exact (kept_schedule x job).trans (ih _)
  | setCloseQuietly next ih =>
    have hquiet : Kept x { x with closeQuietly := true } := ⟨rfl, rfl, rfl, rfl, le_rfl⟩
    exact hquiet.trans (ih _)
  | closeConns outcome streams callback catches next ihs ihc ihn =>
    have hclose := kept_closeConns (kept_hooks ihs ihc) outcome x
    simp only [run]
    split_ifs
    · exact hclose
    · exact hclose.trans (ihn _)

/-- The hooks of an inbound connection call the callback exactly if the handshake is over. -/
theorem hooks_fired_iff (env : Env) (hquiet : x.closeQuietly = false) (hin : x.inbound = true)
    (hcb : x.connClosedCb = true ∨ x.connectionCloseCb = true) :
    x.fired < (env.hooks x).1.fired ↔ x.handshakeConfirmed = true := by
  have hs := kept_run env.streams x
  unfold Env.hooks
  by_cases hconf : x.handshakeConfirmed = true
  · refine iff_of_true ?_ hconf
    unfold executeCloseHooks
    rw [if_neg (by simp [hquiet])]
    dsimp only
    rw [if_neg (by simp [hs.handshakeConfirmed, hconf]),
      if_pos (by simpa [hs.connClosedCb, hs.connectionCloseCb] using hcb)]
    have hfired := hs.fired
    have hlast := (kept_run env.callback
      { (run env.streams x).1 with fired := (run env.streams x).1.fired + 1 }).fired
    dsimp only at hlast
    omega
  · refine iff_of_false ?_ hconf
    have hsilent : x.Silent := .inl ⟨hin, by simpa using hconf⟩
    have hmute := (run_mute env.streams).hooks (run env.callback) x hsilent
    omega

/-- The connection ends with this job: its close hooks run, and not quietly. -/
def endsWith (x : ClosingConn) (job : CloseJob) : Bool :=
  !x.closeQuietly &&
    match job with
    | .close _ | .closeConns => x.inConns && !x.closing && !x.draining
    | .drop => x.inConns
    | .drain => !x.closing && !x.draining
    | .cleanup | .closeQueued => false

theorem dropConnection_fired (hooks : ClosingConn → ClosingConn × Bool) (x : ClosingConn) :
    (x.dropConnection hooks).1.fired = (hooks x).1.fired := by
  unfold dropConnection
  dsimp only
  split_ifs <;> rfl

theorem drainConnection_fired (hooks : ClosingConn → ClosingConn × Bool) (x : ClosingConn) :
    (x.drainConnection hooks).1.fired =
      if x.draining || x.closing then x.fired else (hooks { x with draining := true }).1.fired := by
  unfold drainConnection
  dsimp only
  split_ifs <;> rfl

theorem closeConnection_fired (hooks : ClosingConn → ClosingConn × Bool) (outcome : CloseOutcome)
    (idle : Bool) (x : ClosingConn) :
    (x.closeConnection hooks outcome idle).1.fired =
      if x.closing || x.draining then x.fired else (hooks { x with closing := true }).1.fired := by
  unfold closeConnection
  dsimp only
  split_ifs
  · rfl
  · exact dropConnection_fired hooks _
  · rfl
  · rfl
  · exact (sendClose_spec outcome _).1

/-- A job calls the callback through the close hooks, or not at all. -/
theorem runJob_fired (env : Env) (x : ClosingConn) (job : CloseJob) :
    (runJob env x job).fired = x.fired ∧ x.endsWith job = false ∨
    ∃ c d, (runJob env x job).fired = (env.hooks { x with closing := c, draining := d }).1.fired ∧
      x.endsWith job = !x.closeQuietly := by
  unfold runJob endsWith
  cases job with
  | close idle =>
    dsimp only
    rw [apply_ite fired, closeConnection_fired]
    split_ifs with hin hend
    · exact .inl ⟨rfl, by grind⟩
    · exact .inr ⟨true, x.draining, rfl, by grind⟩
    · exact .inl ⟨rfl, by simp [hin]⟩
  | drop =>
    dsimp only
    split_ifs with hin
    · exact .inr ⟨x.closing, x.draining, dropConnection_fired .., by simp [hin]⟩
    · exact .inl ⟨rfl, by simp [hin]⟩
  | drain =>
    dsimp only
    rw [drainConnection_fired]
    split_ifs with hend
    · exact .inl ⟨rfl, by grind⟩
    · exact .inr ⟨x.closing, true, rfl, by grind⟩
  | closeConns =>
    dsimp only [closeConns]
    split_ifs with hin
    · rw [closeConnection_fired]
      split_ifs with hend
      · exact .inl ⟨rfl, by grind⟩
      · exact .inr ⟨true, x.draining, rfl, by grind⟩
    · exact .inl ⟨rfl, by simp [hin]⟩
  | cleanup =>
    dsimp only
    split_ifs <;> exact .inl ⟨rfl, by simp⟩
  | closeQueued => exact .inl ⟨(sendClose_spec env.outcome x).1, by simp⟩

/-- The callback is called in the job that ends the connection, if the handshake is over. -/
theorem runJob_fired_iff (env : Env) (job : CloseJob) (hin : x.inbound = true)
    (hcb : x.connClosedCb = true ∨ x.connectionCloseCb = true) :
    x.fired < (runJob env x job).fired ↔
      x.endsWith job = true ∧ x.handshakeConfirmed = true := by
  rcases runJob_fired env x job with ⟨hfired, hnot⟩ | ⟨c, d, hfired, hends⟩
  · simp [hfired, hnot]
  · rw [hfired, hends]
    by_cases hquiet : x.closeQuietly = true
    · simp [Env.hooks, executeCloseHooks, hquiet]
    · have hiff := hooks_fired_iff (x := { x with closing := c, draining := d }) env
        (by simpa using hquiet) hin hcb
      simpa [hquiet] using hiff

theorem kept_runJob (env : Env) (x : ClosingConn) (job : CloseJob) : Kept x (runJob env x job) := by
  have hhooks : ∀ x, Kept x (env.hooks x).1 :=
    kept_hooks (kept_run env.streams) (kept_run env.callback)
  have hdelete (y : ClosingConn) : Kept y y.deleteConnection := ⟨rfl, rfl, rfl, rfl, le_rfl⟩
  cases job with
  | close idle =>
    dsimp only [runJob]
    split_ifs
    · exact kept_closeConnection hhooks env.outcome idle x
    · exact .refl x
  | drop =>
    dsimp only [runJob]
    split_ifs
    · exact kept_dropConnection hhooks x
    · exact .refl x
  | drain =>
    dsimp only [runJob, drainConnection]
    have hmark : Kept x { x with draining := true } := ⟨rfl, rfl, rfl, rfl, le_rfl⟩
    split_ifs
    · exact .refl x
    · exact hmark.trans (hhooks _)
    · exact (hmark.trans (hhooks _)).trans (kept_schedule _ .cleanup)
  | closeConns => exact kept_closeConns hhooks env.outcome x
  | cleanup =>
    dsimp only [runJob]
    split_ifs
    · exact hdelete x
    · exact .refl x
  | closeQueued => exact kept_sendClose env.outcome x

end ClosingConn

/-! ## An inbound connection -/

/-- The end of a connection: whether the established callback had been called, whether the handshake
was over, and whether the closed callback was called. -/
structure Ending where
  established : Bool
  confirmed : Bool
  closed : Bool
  deriving DecidableEq, Repr

structure InboundConn where
  conn : ClosingConn
  establishHookCalled : Bool := false
  /-- How many times an established callback has been called. -/
  established : Nat := 0
  endings : List Ending := []
  deriving DecidableEq, Repr

namespace InboundConn

def checkEstablished (x : InboundConn) : InboundConn :=
  if x.establishHookCalled then x
  else { x with establishHookCalled := true, established := x.established + 1 }

inductive Op where
  /-- `stream_opened` and `recv_datagram`, early or not. -/
  | streamOpened
  | recvDatagram
  /-- `on_handshake_completed` -/
  | handshakeCompleted
  | close (op : ClosingConn.Op)

/-- The job that an operation runs. -/
def job (x : InboundConn) : ClosingConn.Op → Option CloseJob
  | .run n _ => x.conn.jobs[n]?
  | _ => none

/-- An operation of `ClosingConn`, and the ending if it is one. -/
def closeStep (x : InboundConn) (op : ClosingConn.Op) : InboundConn :=
  let conn := x.conn.step op
  { x with
    conn := conn
    endings :=
      if (x.job op).any x.conn.endsWith then
        x.endings ++ [{ established := decide (0 < x.established)
                        confirmed := x.conn.handshakeConfirmed
                        closed := decide (x.conn.fired < conn.fired) }]
      else x.endings }

def step (x : InboundConn) : Op → Except Fault InboundConn
  | .streamOpened => .ok (if x.establishHookCalled then x else x.checkEstablished)
  | .recvDatagram => .ok (if x.establishHookCalled then x else x.checkEstablished)
  | .handshakeCompleted =>
    -- `server_handshake_completed` comes first
    .ok { x with conn := { x.conn with handshakeConfirmed := true } }.checkEstablished
  | .close op => .ok (x.closeStep op)

/-- The handshake is confirmed by its completion only. -/
def Enabled (x : InboundConn) : Op → Prop
  | .close .confirmHandshake => False
  | .close op => x.conn.Enabled op
  | _ => True

/-- A new inbound connection, with a closed callback to call. -/
def machine : Machine InboundConn Op Fault where
  initial x := x.conn.inConns = true ∧ x.conn.closing = false ∧ x.conn.draining = false ∧
    x.conn.jobs = [] ∧ x.conn.fired = 0 ∧ x.conn.inbound = true ∧
    x.conn.handshakeConfirmed = false ∧
    (x.conn.connClosedCb = true ∨ x.conn.connectionCloseCb = true) ∧
    x.establishHookCalled = false ∧ x.established = 0 ∧ x.endings = []
  enabled := Enabled
  step := step

instance (x : InboundConn) : (op : Op) → Decidable (machine.enabled x op)
  | .close .confirmHandshake => inferInstanceAs (Decidable False)
  | .close (.schedule job) => inferInstanceAs (Decidable (x.conn.Enabled (.schedule job)))
  | .close (.run n env) => inferInstanceAs (Decidable (x.conn.Enabled (.run n env)))
  | .close .setCloseQuietly => inferInstanceAs (Decidable (x.conn.Enabled .setCloseQuietly))
  | .streamOpened | .recvDatagram | .handshakeCompleted => inferInstanceAs (Decidable True)

variable {x y : InboundConn}

/-- The established callback has been called by the end of the handshake, and the closed callback
is called by endings after it. -/
structure Inv (x : InboundConn) : Prop where
  inbound : x.conn.inbound = true
  callback : x.conn.connClosedCb = true ∨ x.conn.connectionCloseCb = true
  called : x.establishHookCalled = true ↔ 0 < x.established
  confirmed : x.conn.handshakeConfirmed = true → 0 < x.established
  endings : ∀ e ∈ x.endings, e.closed = e.confirmed ∧ (e.confirmed = true → e.established = true)
  fired : 0 < x.conn.fired ↔ ∃ e ∈ x.endings, e.closed = true

theorem Inv.checkEstablished (h : x.Inv) : x.checkEstablished.Inv := by
  unfold InboundConn.checkEstablished
  split_ifs with hcalled
  · exact h
  · exact ⟨h.inbound, h.callback, by simp, by simp, h.endings, h.fired⟩

theorem Inv.handshakeCompleted (h : x.Inv) :
    Inv (InboundConn.checkEstablished
      { x with conn := { x.conn with handshakeConfirmed := true } }) := by
  unfold InboundConn.checkEstablished
  dsimp only
  split_ifs with hcalled
  · exact ⟨h.inbound, h.callback, h.called, fun _ => h.called.mp hcalled, h.endings, h.fired⟩
  · exact ⟨h.inbound, h.callback, by simp, by simp, h.endings, h.fired⟩

theorem closeStep_kept {op : ClosingConn.Op} (hen : x.Enabled (.close op)) :
    ClosingConn.Kept x.conn (x.conn.step op) := by
  cases op with
  | schedule job => exact ClosingConn.kept_schedule x.conn job
  | run n env =>
    simp only [ClosingConn.step]
    cases hjob : x.conn.jobs[n]? with
    | none => exact .refl _
    | some job =>
      have htake : ClosingConn.Kept x.conn { x.conn with jobs := x.conn.jobs.eraseIdx n } :=
        ⟨rfl, rfl, rfl, rfl, le_rfl⟩
      exact htake.trans (ClosingConn.kept_runJob env _ job)
  | setCloseQuietly => exact ⟨rfl, rfl, rfl, rfl, le_rfl⟩
  | confirmHandshake => exact hen.elim

/-- The closed callback is called by an ending, if the handshake is over by then. -/
theorem closeStep_fired_iff (h : x.Inv) (op : ClosingConn.Op) :
    x.conn.fired < (x.conn.step op).fired ↔
      (x.job op).any x.conn.endsWith = true ∧ x.conn.handshakeConfirmed = true := by
  cases op with
  | schedule _ => simp [ClosingConn.step, ClosingConn.schedule, job]
  | run n env =>
    simp only [ClosingConn.step, job]
    cases hjob : x.conn.jobs[n]? with
    | none => simp
    | some job =>
      exact ClosingConn.runJob_fired_iff (x := { x.conn with jobs := x.conn.jobs.eraseIdx n })
        env job h.inbound h.callback
  | setCloseQuietly => simp [ClosingConn.step, job]
  | confirmHandshake => simp [ClosingConn.step, job]

theorem Inv.closeStep (h : x.Inv) {op : ClosingConn.Op} (hen : x.Enabled (.close op)) :
    (x.closeStep op).Inv := by
  have hkept := closeStep_kept hen
  have hiff := closeStep_fired_iff h op
  have hmono := hkept.fired
  have hold := h.fired
  unfold InboundConn.closeStep
  dsimp only
  refine ⟨hkept.inbound.trans h.inbound, ?_, h.called, ?_, ?_, ?_⟩
  · rw [hkept.connClosedCb, hkept.connectionCloseCb]
    exact h.callback
  · rw [hkept.handshakeConfirmed]
    exact h.confirmed
  · intro e he
    dsimp only at he
    split_ifs at he with hends
    · rcases List.mem_append.mp he with he | he
      · exact h.endings e he
      · obtain rfl := List.mem_singleton.mp he
        refine ⟨?_, fun hconf => decide_eq_true (h.confirmed hconf)⟩
        exact Bool.eq_iff_iff.mpr (decide_eq_true_iff.trans (hiff.trans (and_iff_right hends)))
    · exact h.endings e he
  · dsimp only
    split_ifs with hends
    · simp only [List.mem_append, List.mem_singleton, or_and_right, exists_or, exists_eq_left,
        decide_eq_true_eq, ← hold]
      omega
    · have hsame : (x.conn.step op).fired = x.conn.fired := by
        have : ¬ x.conn.fired < (x.conn.step op).fired := fun hlt => hends (hiff.mp hlt).1
        omega
      rw [hsame, hold]

theorem inv_inductive : machine.Inductive Inv where
  initial := by
    rintro x ⟨-, -, -, -, hfired, hin, hconf, hcb, hcalled, hest, hend⟩
    exact ⟨hin, hcb, by simp [hcalled, hest], by simp [hconf], by simp [hend],
      by simp [hfired, hend]⟩
  step := by
    intro x op h hen
    cases op with
    | streamOpened | recvDatagram =>
      refine ⟨_, rfl, ?_⟩
      split_ifs
      · exact h
      · exact h.checkEstablished
    | handshakeCompleted => exact ⟨_, rfl, h.handshakeCompleted⟩
    | close op => exact ⟨_, rfl, h.closeStep hen⟩

/-- The closed callback is called by endings only, and every ending of an inbound connection calls
it exactly if the established callback was called before, if and only if no connection that was
announced ends before its handshake is over. -/
theorem closed_iff_established (h : machine.Reachable x) :
    ((∀ e ∈ x.endings, e.closed = e.established) ↔
      ∀ e ∈ x.endings, e.established = true → e.confirmed = true) ∧
    (0 < x.conn.fired ↔ ∃ e ∈ x.endings, e.closed = true) := by
  have hinv := inv_inductive.reachable h
  refine ⟨forall₂_congr fun e he => ?_, hinv.fired⟩
  obtain ⟨hclosed, hconf⟩ := hinv.endings e he
  rw [hclosed, Bool.eq_iff_iff]
  exact ⟨fun heq => heq.mpr, fun himp => ⟨hconf, himp⟩⟩

/-- A new connection with a closed callback. -/
def fresh : InboundConn := { conn := { inbound := true, connClosedCb := true } }

theorem reachable_fresh : machine.Reachable fresh :=
  .initial ⟨rfl, rfl, rfl, rfl, rfl, rfl, rfl, .inl rfl, rfl, rfl, rfl⟩

/-- An early stream announces the connection, which is then closed during the handshake. -/
theorem announced_not_closed :
    ∃ x, machine.Reachable x ∧ x.established = 1 ∧ x.conn.fired = 0 ∧
      x.endings = [{ established := true, confirmed := false, closed := false }] := by
  have hrun : (machine.run fresh [.streamOpened, .close (.schedule (.close false)),
      .close (.run 0 {})]).map (fun x => (x.established, x.conn.fired, x.endings)) =
      some (1, 0, [{ established := true, confirmed := false, closed := false }]) := by decide
  obtain ⟨x, hx, hview⟩ := Option.map_eq_some_iff.mp hrun
  simp only [Prod.mk.injEq] at hview
  exact ⟨x, reachable_fresh.run hx, hview⟩

theorem closed_iff_established_early_datagram :
    ∃ x, machine.Reachable x ∧ x.endings.length = 1 ∧
      ∀ e ∈ x.endings, e.closed = e.established := by
  have hrun : (machine.run fresh [.recvDatagram, .handshakeCompleted,
      .close (.schedule (.close false)), .close (.run 0 {})]).map (·.endings) =
      some [{ established := true, confirmed := true, closed := true }] := by decide
  obtain ⟨x, hx, hends⟩ := Option.map_eq_some_iff.mp hrun
  have hreach := reachable_fresh.run hx
  exact ⟨x, hreach, by simp [hends], (closed_iff_established hreach).1.mpr (by simp [hends])⟩

end InboundConn

end Libquic
