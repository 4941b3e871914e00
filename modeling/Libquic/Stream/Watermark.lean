import Libquic.Stream.Ledger

/-!
# Watermarks

`enable_watermarks`, `disable_watermarks` and every place that calls `check_watermark`: the
alarm flag against the unsent size, and the order of the alarm and clear transitions.

The transitions of an operation are listed by functions beside those of `Stream.Basic`, one
for each of them: `checkTransitions` lists a flip where `checkWatermark` makes it, followed by
whatever the callback's own sends cause.
-/
namespace Libquic

open Lib

/-! ## Lists of toggles -/

/-- `ts` lists the values a flag takes on its way from `a` to `b`, changing at every entry. -/
def Toggles : Bool → List Bool → Bool → Prop
  | a, [], b => a = b
  | a, t :: ts, b => t = !a ∧ Toggles t ts b

namespace Toggles

theorem append {a b c : Bool} {ts us : List Bool} (h : Toggles a ts b) (h' : Toggles b us c) :
    Toggles a (ts ++ us) c := by
  induction ts generalizing a with
  | nil => exact (show a = b from h) ▸ h'
  | cons t ts ih => exact ⟨h.1, ih h.2⟩

/-- The last entry is where the flag ends up. -/
theorem getLast? {a b : Bool} {ts : List Bool} (h : Toggles a ts b) : ts.getLast?.getD a = b := by
  induction ts generalizing a with
  | nil => exact h
  | cons t ts ih =>
    rw [List.getLast?_cons]
    exact ih h.2

/-- Entries at even places differ from where the flag started. -/
theorem getElem? {a b t : Bool} {ts : List Bool} {i : Nat} (h : Toggles a ts b)
    (ht : ts[i]? = some t) : (t = !a) ↔ i % 2 = 0 := by
  induction ts generalizing a i with
  | nil => simp at ht
  | cons u ts ih =>
    obtain ⟨rfl, h⟩ := h
    cases i with
    | zero => grind
    | succ i =>
      have := ih h (by simpa using ht)
      cases a <;> cases t <;> grind

end Toggles

namespace Stream

/-- New thresholds; the alarm is reset only if there were none before. -/
def setWatermarks (s : Stream) (alarm clear : Nat) : Stream :=
  { s with
    watermarkAlarm := if s.watermarking.isNone then false else s.watermarkAlarm
    watermarking := some (alarm, clear) }

@[simp] theorem setWatermarks_watermarking (s : Stream) (alarm clear : Nat) :
    (s.setWatermarks alarm clear).watermarking = some (alarm, clear) := rfl

@[simp] theorem setWatermarks_watermarkAlarm (s : Stream) (alarm clear : Nat) :
    (s.setWatermarks alarm clear).watermarkAlarm =
      if s.watermarking.isNone then false else s.watermarkAlarm := rfl

/-- The error is the text of the `std::logic_error`. -/
def enableWatermarks (callback : Stream → Stream) (s : Stream) (alarm clear : Nat) :
    Except String Stream :=
  if alarm ≤ clear then
    .error (s!"Invalid enable_watermarks() call: alarm watermark ({alarm}) must be > " ++
      s!"clear watermark ({clear})")
  else if s.isClosing || s.sendFin then .ok s
  else .ok (checkWatermark callback (s.setWatermarks alarm clear))

def disableWatermarks (s : Stream) : Stream :=
  if s.watermarking.isNone then s else { s with watermarking := none, watermarkAlarm := false }

/-- `stream_execute_close` with `Stream::closed`. What the close callback sends is dropped. -/
def streamExecuteClose (s : Stream) : Stream :=
  let wasClosing := s.isClosing
  let s := ({ s with isClosing := true } : Stream).disableWatermarks
  if wasClosing then s else { s with sendFin := true }

/-- Whether the alarm is raised, if watermarks are enabled. -/
def watermarkStatus (s : Stream) : Option Bool := s.watermarking.map fun _ => s.watermarkAlarm

/-! ## Transitions -/

/-- The transitions of `checkWatermark`, where `callback` lists those of the callback. -/
def checkTransitions (callback : Stream → List Bool) (s : Stream) : List Bool :=
  match s.watermarking with
  | none => []
  | some (alarmThresh, clearThresh) =>
    if s.watermarkAlarm then
      if s.unsentSize ≤ clearThresh then false :: callback { s with watermarkAlarm := false }
      else []
    else if alarmThresh ≤ s.unsentSize then true :: callback { s with watermarkAlarm := true }
    else []

def sendTransitions (connOpen : Bool) (callback : Stream → List Bool) (s : Stream)
    (buffer : Buffer) : List Bool :=
  if s.accepts connOpen buffer.data then
    checkTransitions callback (s.grow [buffer] s.watermarkAlarm)
  else []

def reactTransitions (connOpen : Bool) : Reaction → Stream → List Bool
  | .done, _ => []
  | .send data keepAlive inner next, s =>
    sendTransitions connOpen (reactTransitions connOpen inner) s ⟨data, keepAlive⟩ ++
      reactTransitions connOpen next (sendImpl connOpen (react connOpen inner) s ⟨data, keepAlive⟩)

def wroteTransitions (callback : Stream → List Bool) (s : Stream) (bytes : Nat) : List Bool :=
  checkTransitions callback
    (s.move bytes s.currentBufferIndex s.currentBufferOffset)

def withdrawTransitions (callback : Stream → List Bool) (s : Stream) (keepAlive : KeepAlive) :
    List Bool :=
  match (s.userBuffers.drop s.firstWhole).findIdx? (·.keepAlive = keepAlive) with
  | none => []
  | some j =>
    match s.userBuffers[s.firstWhole + j]? with
    | none => []
    | some b =>
      checkTransitions callback
        (s.shrink b.size (s.userBuffers.eraseIdx (s.firstWhole + j)))

def enableTransitions (callback : Stream → List Bool) (s : Stream) (alarm clear : Nat) :
    List Bool :=
  if alarm ≤ clear ∨ s.isClosing ∨ s.sendFin then []
  else checkTransitions callback (s.setWatermarks alarm clear)

/-- The transitions of an operation of the send side. -/
def opTransitions (connOpen : Bool) (s : Stream) : SendOp → List Bool
  | .send buffer reaction =>
    s.sendTransitions connOpen (reactTransitions connOpen reaction) buffer
  | .write _ bytes reaction => s.wroteTransitions (reactTransitions connOpen reaction) bytes
  | .acknowledge _ => []
  | .withdraw keepAlive reaction =>
    s.withdrawTransitions (reactTransitions connOpen reaction) keepAlive

/-! ## What a check leaves behind -/

/-- The thresholds are in the order `enable_watermarks` asks for. -/
def Ordered (s : Stream) : Prop :=
  ∀ alarm clear, s.watermarking = some (alarm, clear) → clear < alarm

/-- The alarm agrees with the unsent size. -/
structure Watermarked (s : Stream) : Prop where
  ordered : s.Ordered
  raised : ∀ alarm clear, s.watermarking = some (alarm, clear) →
    s.watermarkAlarm = true → clear < s.unsentSize
  quiet : ∀ alarm clear, s.watermarking = some (alarm, clear) →
    s.watermarkAlarm = false → s.unsentSize < alarm

/-- `ts` are the transitions on the way from `s` to `t`, at fixed watermarks. -/
structure Passes (s : Stream) (ts : List Bool) (t : Stream) : Prop where
  watermarking : t.watermarking = s.watermarking
  toggles : Toggles s.watermarkAlarm ts t.watermarkAlarm
  silent : s.watermarking = none → ts = []

theorem Passes.refl (s : Stream) : Passes s [] s := ⟨rfl, rfl, fun _ => rfl⟩

theorem Passes.trans {s t u : Stream} {ts us : List Bool} (h : Passes s ts t)
    (h' : Passes t us u) : Passes s (ts ++ us) u where
  watermarking := h'.watermarking.trans h.watermarking
  toggles := h.toggles.append h'.toggles
  silent hnone := by
    rw [h.silent hnone, h'.silent (h.watermarking.trans hnone)]
    rfl

/-- `log` lists what `callback` does to the alarm, and the callback leaves it settled. -/
structure Logs (callback : Stream → Stream) (log : Stream → List Bool) : Prop where
  passes : ∀ s, Passes s (log s) (callback s)
  settled : ∀ s, s.Watermarked → (callback s).Watermarked

section Check
variable {callback : Stream → Stream} {log : Stream → List Bool}

theorem Watermarked.congr {s t : Stream} (h : s.Watermarked) (hw : t.watermarking = s.watermarking)
    (ha : t.watermarkAlarm = s.watermarkAlarm) (hu : t.unsentSize = s.unsentSize) :
    t.Watermarked := by
  obtain ⟨ordered, raised, quiet⟩ := h
  constructor <;> grind [Ordered]

theorem checkWatermark_enabled {s : Stream} {alarm clear : Nat}
    (hw : s.watermarking = some (alarm, clear)) :
    checkWatermark callback s =
      if s.watermarkAlarm then
        if s.unsentSize ≤ clear then callback { s with watermarkAlarm := false } else s
      else if alarm ≤ s.unsentSize then callback { s with watermarkAlarm := true }
      else s := by
  simp [checkWatermark, hw]

theorem checkTransitions_enabled {s : Stream} {alarm clear : Nat}
    (hw : s.watermarking = some (alarm, clear)) :
    checkTransitions log s =
      if s.watermarkAlarm then
        if s.unsentSize ≤ clear then false :: log { s with watermarkAlarm := false } else []
      else if alarm ≤ s.unsentSize then true :: log { s with watermarkAlarm := true }
      else [] := by
  simp [checkTransitions, hw]

/-- After a flip the alarm is where its threshold wants it, whatever it was before. -/
theorem watermarked_checkWatermark (hlog : Logs callback log) {s : Stream} (h : s.Ordered) :
    (checkWatermark callback s).Watermarked := by
  by_cases hw : s.watermarking = none
  case pos =>
    have hidle : checkWatermark callback s = s := by simp [checkWatermark, hw]
    rw [hidle]
    exact ⟨h, by simp [hw], by simp [hw]⟩
  obtain ⟨⟨alarm, clear⟩, hw⟩ := Option.ne_none_iff_exists'.mp hw
  have hlt := h alarm clear hw
  rw [checkWatermark_enabled hw]
  split_ifs with hraised hclear halarm
  · apply hlog.settled
    constructor <;> grind [Ordered]
  · constructor <;> grind
  · apply hlog.settled
    constructor <;> grind [Ordered]
  · constructor <;> grind

/-- A check made after some step that left the watermarks alone. -/
theorem passes_checkWatermark (hlog : Logs callback log) {s₀ s : Stream}
    (hw : s.watermarking = s₀.watermarking) (ha : s.watermarkAlarm = s₀.watermarkAlarm) :
    Passes s₀ (checkTransitions log s) (checkWatermark callback s) := by
  have idle : Passes s₀ [] s := ⟨hw, ha.symm, fun _ => rfl⟩
  by_cases hsome : s.watermarking = none
  case pos => simpa [checkTransitions, checkWatermark, hsome] using idle
  have fired (alarm : Bool) (hflip : alarm = !s₀.watermarkAlarm) :
      Passes s₀ (alarm :: log { s with watermarkAlarm := alarm })
        (callback { s with watermarkAlarm := alarm }) := by
    obtain ⟨hwatermarking, htoggles, -⟩ := hlog.passes { s with watermarkAlarm := alarm }
    exact ⟨hwatermarking.trans hw, ⟨hflip, htoggles⟩, fun hnone => (hsome (hw.trans hnone)).elim⟩
  obtain ⟨⟨alarm, clear⟩, hw⟩ := Option.ne_none_iff_exists'.mp hsome
  rw [checkWatermark_enabled hw, checkTransitions_enabled hw]
  split_ifs with hraised
  · exact fired false (by simp [← ha, hraised])
  · exact idle
  · exact fired true (by simp [← ha, hraised])
  · exact idle

theorem sendImpl_eq (connOpen : Bool) (callback : Stream → Stream) (s : Stream) (b : Buffer) :
    sendImpl connOpen callback s b =
      if s.accepts connOpen b.data then
        checkWatermark callback (s.grow [b] s.watermarkAlarm)
      else s := by
  simp [sendImpl, appendBuffer, grow, Buffer.size]

theorem logs_sendImpl (hlog : Logs callback log) (connOpen : Bool) (b : Buffer) :
    Logs (sendImpl connOpen callback · b) (sendTransitions connOpen log · b) := by
  constructor
  · intro s
    rw [sendImpl_eq, sendTransitions]
    split
    · exact passes_checkWatermark hlog rfl rfl
    · exact Passes.refl s
  · intro s hs
    rw [sendImpl_eq]
    split
    · exact watermarked_checkWatermark hlog hs.ordered
    · exact hs

theorem logs_react (connOpen : Bool) (r : Reaction) :
    Logs (react connOpen r) (reactTransitions connOpen r) := by
  induction r with
  | done => exact ⟨Passes.refl, fun _ hs => hs⟩
  | send data keepAlive inner next ihInner ihNext =>
    have hsend := logs_sendImpl ihInner connOpen ⟨data, keepAlive⟩
    exact ⟨fun s => (hsend.passes s).trans (ihNext.passes _),
      fun s hs => ihNext.settled _ (hsend.settled s hs)⟩

/-! ## The operations -/

theorem wrote_passes (hlog : Logs callback log) {s t : Stream} {bytes : Nat}
    (h : wrote callback s bytes = .ok t) :
    Passes s (wroteTransitions log s bytes) t ∧ (s.Watermarked → t.Watermarked) := by
  obtain ⟨unsent, hsub, h⟩ := bind_ok h
  obtain ⟨⟨index, offset⟩, -, h⟩ := bind_ok h
  obtain rfl := Except.ok.inj h
  obtain ⟨-, rfl⟩ := checkedSub_eq_ok hsub
  -- The cursor moves only after the check, and nothing about the alarm reads it.
  have hpass : Passes s _ _ := passes_checkWatermark hlog
    (s := s.move bytes s.currentBufferIndex s.currentBufferOffset) rfl rfl
  refine ⟨⟨hpass.watermarking, hpass.toggles, hpass.silent⟩, fun hs => ?_⟩
  have hset := watermarked_checkWatermark hlog
    (s := s.move bytes s.currentBufferIndex s.currentBufferOffset) hs.ordered
  exact hset.congr rfl rfl rfl

theorem withdraw_passes (hlog : Logs callback log) {s t : Stream} {keepAlive : KeepAlive}
    {found : Bool} (h : withdraw callback s keepAlive = .ok (found, t)) :
    Passes s (withdrawTransitions log s keepAlive) t ∧ (s.Watermarked → t.Watermarked) := by
  have hfold : s.currentBufferIndex + (if s.started then 1 else 0) = s.firstWhole := rfl
  simp only [withdraw, hfold] at h
  split at h
  next hfind =>
    obtain rfl := (Prod.mk.inj (Except.ok.inj h)).2
    rw [withdrawTransitions, hfind]
    exact ⟨Passes.refl s, id⟩
  next j hfind =>
    split at h
    case h_2 => cases h
    next b hget =>
      obtain ⟨unsent, hsub, h⟩ := bind_ok h
      obtain ⟨-, rfl⟩ := checkedSub_eq_ok hsub
      obtain rfl := (Prod.mk.inj (Except.ok.inj h)).2
      simp only [withdrawTransitions, hfind, hget]
      exact ⟨passes_checkWatermark hlog rfl rfl,
        fun hs => watermarked_checkWatermark hlog hs.ordered⟩

theorem acknowledge_passes {s t : Stream} {bytes : Nat} (h : acknowledge s bytes = .ok t) :
    Passes s [] t ∧ (s.Watermarked → t.Watermarked) := by
  obtain ⟨-, hunsent, hwatermarking, halarm, -⟩ := acknowledge_keeps h
  exact ⟨⟨hwatermarking, halarm.symm, fun _ => rfl⟩,
    fun hs => hs.congr hwatermarking halarm hunsent⟩

end Check

end Stream

theorem SendState.step_passes {connOpen : Bool} {x y : SendState} {op : SendOp}
    (h : x.step connOpen op = .ok y) :
    Stream.Passes x.stream (x.stream.opTransitions connOpen op) y.stream ∧
      (x.stream.Watermarked → y.stream.Watermarked) := by
  cases op with
  | send buffer reaction =>
    obtain rfl := Except.ok.inj h
    have hlog := Stream.logs_sendImpl (Stream.logs_react connOpen reaction) connOpen buffer
    exact ⟨hlog.passes x.stream, hlog.settled x.stream⟩
  | write offer bytes reaction =>
    obtain ⟨⟨vecs, more⟩, -, h⟩ := bind_ok h
    obtain ⟨s, hw, h⟩ := bind_ok h
    obtain rfl := Except.ok.inj h
    exact Stream.wrote_passes (Stream.logs_react connOpen reaction) hw
  | acknowledge bytes =>
    obtain ⟨s, ha, h⟩ := bind_ok h
    obtain rfl := Except.ok.inj h
    exact Stream.acknowledge_passes ha
  | withdraw keepAlive reaction =>
    obtain ⟨⟨found, s⟩, hw, h⟩ := bind_ok h
    obtain rfl := Except.ok.inj h
    exact Stream.withdraw_passes (Stream.logs_react connOpen reaction) hw

/-! ## A stream's watermarks over time -/

/-- What can happen to a stream with or without watermarks. The reaction is what the alarm or
the clear callback does if the operation triggers one; `sends` is what other code sends on the
stream between its reversal and the check that ends `revert_early_channels`. -/
inductive WatermarkOp where
  | send (buffer : Buffer) (reaction : Reaction)
  | wrote (offer bytes : Nat) (reaction : Reaction)
  | acknowledge (bytes : Nat)
  | withdraw (keepAlive : KeepAlive) (reaction : Reaction)
  | enableWatermarks (alarm clear : Nat) (reaction : Reaction)
  | disableWatermarks
  | revert (sends : List (Buffer × Reaction)) (reaction : Reaction)
  | sendFin
  | close
  | streamExecuteClose
  deriving DecidableEq, Repr

/-- A stream, and its transitions since watermarks were last enabled from the disabled state:
`true` for an alarm, `false` for a clear. -/
structure Watched where
  send : SendState
  transitions : List Bool := []
  deriving DecidableEq, Repr

namespace Watched

/-- A new stream, without watermarks. -/
def Initial (x : Watched) : Prop :=
  x.send.Initial ∧ x.send.stream.watermarking = none ∧ x.transitions = []

/-- The callers' obligations: at most the offered bytes are written, and at most the unacked
ones acked. -/
def Enabled (x : Watched) : WatermarkOp → Prop
  | .wrote offer bytes reaction => x.send.Enabled (.write offer bytes reaction)
  | .acknowledge bytes => x.send.Enabled (.acknowledge bytes)
  | _ => True

instance (x : Watched) : (op : WatermarkOp) → Decidable (x.Enabled op)
  | .wrote offer bytes reaction =>
    inferInstanceAs (Decidable (x.send.Enabled (.write offer bytes reaction)))
  | .acknowledge bytes => inferInstanceAs (Decidable (x.send.Enabled (.acknowledge bytes)))
  | .send .. | .withdraw .. | .enableWatermarks .. | .disableWatermarks | .revert .. | .sendFin
  | .close | .streamExecuteClose => inferInstanceAs (Decidable True)

/-- Replace the stream and note the transitions on the way. -/
def note (x : Watched) (send : SendState) (transitions : List Bool) : Watched :=
  ⟨send, x.transitions ++ transitions⟩

/-- Change flags and watermarks of the stream, and nothing else. -/
def setStream (x : Watched) (s : Stream) : Watched := { x with send.stream := s }

/-- An operation of the send side. -/
def side (connOpen : Bool) (x : Watched) (op : SendOp) : Except Fault Watched := do
  let y ← x.send.step connOpen op
  return x.note y (x.send.stream.opTransitions connOpen op)

def sendOne (connOpen : Bool) (x : Watched) (sent : Buffer × Reaction) : Watched :=
  x.note (x.send.commit x.send.ledger
      (x.send.stream.sendImpl connOpen (Stream.react connOpen sent.2) sent.1))
    (x.send.stream.opTransitions connOpen (.send sent.1 sent.2))

/-- `check_watermark` on its own. -/
def check (connOpen : Bool) (reaction : Reaction) (x : Watched) : Watched :=
  x.note (x.send.commit x.send.ledger
      (x.send.stream.checkWatermark (Stream.react connOpen reaction)))
    (x.send.stream.checkTransitions (Stream.reactTransitions connOpen reaction))

/-- `revert_stream`: what was sent and not acked is unsent again. -/
def revertStream (x : Watched) : Watched :=
  { x with send := ⟨x.send.stream.revertStream, { x.send.ledger with
    consumed := (bytesOf x.send.ledger.live).take x.send.ledger.acked }⟩ }

/-- A refused `enable_watermarks` leaves the stream as it was. Enabled from the disabled
state, the transitions start anew. -/
def enable (connOpen : Bool) (x : Watched) (alarm clear : Nat) (reaction : Reaction) : Watched :=
  match x.send.stream.enableWatermarks (Stream.react connOpen reaction) alarm clear with
  | .error _ => x
  | .ok s =>
    ⟨x.send.commit x.send.ledger s,
      (if x.send.stream.watermarking = none ∧ s.watermarking ≠ none then [] else x.transitions) ++
        x.send.stream.enableTransitions (Stream.reactTransitions connOpen reaction) alarm clear⟩

def step (connOpen : Bool) (x : Watched) : WatermarkOp → Except Fault Watched
  | .send buffer reaction => x.side connOpen (.send buffer reaction)
  | .wrote offer bytes reaction => x.side connOpen (.write offer bytes reaction)
  | .acknowledge bytes => x.side connOpen (.acknowledge bytes)
  | .withdraw keepAlive reaction => x.side connOpen (.withdraw keepAlive reaction)
  | .enableWatermarks alarm clear reaction => .ok (x.enable connOpen alarm clear reaction)
  | .disableWatermarks => .ok (x.setStream x.send.stream.disableWatermarks)
  | .revert sends reaction =>
    .ok ((sends.foldl (sendOne connOpen) x.revertStream).check connOpen reaction)
  | .sendFin => .ok (x.setStream { x.send.stream with sendFin := true })
  | .close => .ok (x.setStream x.send.stream.close)
  | .streamExecuteClose => .ok (x.setStream x.send.stream.streamExecuteClose)

/-- The stream under any operations, each with whether the connection is open then. -/
def machine : Machine Watched (Bool × WatermarkOp) Fault where
  initial := Initial
  enabled x op := x.Enabled op.2
  step x op := x.step op.1 op.2

instance (x : Watched) (op : Bool × WatermarkOp) : Decidable (machine.enabled x op) :=
  inferInstanceAs (Decidable (x.Enabled op.2))

/-! ## The invariant -/

/-- The transitions alternate from a raised alarm on, and end where the alarm now is. -/
def Toggled (x : Watched) : Prop :=
  ∃ b, Toggles false x.transitions b ∧
    (x.send.stream.watermarking ≠ none → b = x.send.stream.watermarkAlarm)

/-- What holds also between a reversal and the check after it. -/
structure Sound (x : Watched) : Prop where
  agrees : x.send.Agrees
  ordered : x.send.stream.Ordered
  toggled : x.Toggled

def Inv (x : Watched) : Prop := x.Sound ∧ x.send.stream.Watermarked

variable {connOpen : Bool} {x : Watched}

theorem Toggled.note {y : SendState} {ts : List Bool} (h : x.Toggled)
    (hp : Stream.Passes x.send.stream ts y.stream) : (x.note y ts).Toggled := by
  obtain ⟨b, hb, halarm⟩ := h
  by_cases hnone : x.send.stream.watermarking = none
  · refine ⟨b, ?_, fun hsome => (hsome (hp.watermarking.trans hnone)).elim⟩
    rw [Watched.note, hp.silent hnone, List.append_nil]
    exact hb
  · obtain rfl := halarm hnone
    exact ⟨_, hb.append hp.toggles, fun _ => rfl⟩

theorem Sound.note {y : SendState} {ts : List Bool} (h : x.Sound) (hy : y.Agrees)
    (hp : Stream.Passes x.send.stream ts y.stream) : (x.note y ts).Sound where
  agrees := hy
  ordered alarm clear hw := h.ordered alarm clear (hp.watermarking.symm.trans hw)
  toggled := h.toggled.note hp

theorem Sound.sendOne (h : x.Sound) (sent : Buffer × Reaction) :
    (x.sendOne connOpen sent).Sound :=
  h.note (SendState.send_agrees h.agrees sent.1 sent.2)
    (SendState.step_passes (show x.send.step connOpen (.send sent.1 sent.2) = .ok _ from rfl)).1

theorem Inv.side {op : SendOp} (h : x.Inv)
    (hok : ∃ y, x.send.step connOpen op = .ok y ∧ y.Agrees) :
    ∃ z, x.side connOpen op = .ok z ∧ z.Inv := by
  obtain ⟨y, hy, hagrees⟩ := hok
  obtain ⟨hpass, hsettled⟩ := SendState.step_passes hy
  refine ⟨x.note y (x.send.stream.opTransitions connOpen op), ?_, h.1.note hagrees hpass,
    hsettled h.2⟩
  rw [Watched.side, hy]
  rfl

theorem Sound.foldl_sendOne (h : x.Sound) (sends : List (Buffer × Reaction)) :
    (sends.foldl (Watched.sendOne connOpen) x).Sound := by
  induction sends generalizing x with
  | nil => exact h
  | cons sent sends ih => exact ih (h.sendOne sent)

/-- The stream after a check agrees with the ledger if it did before. -/
theorem check_agrees (connOpen : Bool) (reaction : Reaction) {s : Stream}
    (h : SendState.Agrees ⟨s, x.send.ledger⟩) (hs : s.accepted = x.send.stream.accepted) :
    (x.send.commit x.send.ledger
      (s.checkWatermark (Stream.react connOpen reaction))).Agrees := by
  obtain ⟨added, alarm, hne, he⟩ :=
    Stream.checkWatermark_grow (Stream.react_onlySends connOpen reaction) s
  rw [he]
  exact SendState.commit_grow h hs alarm hne

theorem Sound.check (h : x.Sound) (reaction : Reaction) : (x.check connOpen reaction).Inv :=
  have hlog := Stream.logs_react connOpen reaction
  ⟨h.note (check_agrees connOpen reaction h.agrees rfl) (Stream.passes_checkWatermark hlog rfl rfl),
    Stream.watermarked_checkWatermark hlog h.ordered⟩

theorem Sound.revertStream (h : x.Sound) : x.revertStream.Sound := by
  obtain ⟨released, held, hsplit⟩ := h.agrees
  exact ⟨⟨released, held, hsplit.revert⟩, h.ordered, h.toggled⟩

/-- Flags other than the alarm may change at any time. -/
theorem Inv.setFlags (h : x.Inv) {s : Stream}
    (hs : s = { x.send.stream with sendFin := s.sendFin, isClosing := s.isClosing }) :
    (x.setStream s).Inv := by
  obtain ⟨⟨⟨released, held, hsplit⟩, hordered, htoggled⟩, hsettled⟩ := h
  rw [hs]
  exact ⟨⟨⟨released, held, hsplit.congr rfl⟩, hordered, htoggled⟩, hsettled.congr rfl rfl rfl⟩

theorem Inv.disable (h : x.Inv) : (x.setStream x.send.stream.disableWatermarks).Inv := by
  unfold Stream.disableWatermarks
  split
  · exact h
  · obtain ⟨⟨⟨released, held, hsplit⟩, -, b, hb, -⟩, -⟩ := h
    exact ⟨⟨⟨released, held, hsplit.congr rfl⟩, by simp [setStream, Stream.Ordered],
      b, hb, by simp [setStream]⟩, by constructor <;> simp [setStream, Stream.Ordered]⟩

theorem Inv.streamExecuteClose (h : x.Inv) :
    (x.setStream x.send.stream.streamExecuteClose).Inv := by
  have hclosing : (x.setStream { x.send.stream with isClosing := true }).Inv := h.setFlags rfl
  have hdisabled := hclosing.disable
  unfold Stream.streamExecuteClose
  dsimp only
  split_ifs
  · exact hdisabled
  · exact hdisabled.setFlags rfl

theorem commit_self (x : SendState) : x.commit x.ledger x.stream = x := by
  simp [SendState.commit, Ledger.queue]

theorem Inv.enable (h : x.Inv) (alarm clear : Nat) (reaction : Reaction) :
    (x.enable connOpen alarm clear reaction).Inv := by
  unfold Watched.enable Stream.enableWatermarks Stream.enableTransitions
  by_cases hle : alarm ≤ clear
  case pos => simpa [hle] using h
  by_cases hfin : x.send.stream.isClosing = true ∨ x.send.stream.sendFin = true
  case pos => simpa [hle, hfin, commit_self] using h
  have hlog := Stream.logs_react connOpen reaction
  have hpass := Stream.passes_checkWatermark hlog
    (s := x.send.stream.setWatermarks alarm clear) rfl rfl
  have hordered : (x.send.stream.setWatermarks alarm clear).Ordered := by
    rintro a c ⟨⟩
    omega
  obtain ⟨⟨⟨released, held, hsplit⟩, -, b, hb, halarm⟩, -⟩ := h
  have hagrees := check_agrees (x := x) connOpen reaction
    (s := x.send.stream.setWatermarks alarm clear) ⟨released, held, hsplit.congr rfl⟩ rfl
  simp only [hle, hfin, if_false, Bool.or_eq_true]
  refine ⟨⟨hagrees, ?_, ?_⟩, Stream.watermarked_checkWatermark hlog hordered⟩
  · intro a c hw
    exact hordered a c (hpass.watermarking.symm.trans hw)
  · refine ⟨_, ?_, fun _ => rfl⟩
    by_cases hnone : x.send.stream.watermarking = none
    · rw [if_pos ⟨hnone, by simp [hpass.watermarking]⟩]
      simpa [hnone, SendState.commit] using hpass.toggles
    · rw [if_neg (fun h => hnone h.1)]
      obtain rfl := halarm hnone
      apply hb.append
      simpa [hnone, SendState.commit] using hpass.toggles

theorem inv_inductive : machine.Inductive Inv where
  initial x := by
    rintro ⟨hinit, hnone, hts⟩
    refine ⟨⟨hinit.agrees, by simp [Stream.Ordered, hnone], false, ?_, by simp [hnone]⟩, ?_⟩
    · rw [hts]
      rfl
    · constructor <;> simp [Stream.Ordered, hnone]
  step x := by
    rintro ⟨connOpen, op⟩ h hen
    cases op with
    | send buffer reaction =>
      exact h.side ⟨_, rfl, SendState.send_agrees h.1.agrees buffer reaction⟩
    | wrote offer bytes reaction => exact h.side (SendState.write_agrees h.1.agrees hen)
    | acknowledge bytes => exact h.side (SendState.acknowledge_agrees connOpen h.1.agrees hen)
    | withdraw keepAlive reaction =>
      exact h.side (SendState.withdraw_agrees h.1.agrees keepAlive reaction)
    | enableWatermarks alarm clear reaction => exact ⟨_, rfl, h.enable alarm clear reaction⟩
    | disableWatermarks => exact ⟨_, rfl, h.disable⟩
    | revert sends reaction =>
      exact ⟨_, rfl, (h.1.revertStream.foldl_sendOne sends).check reaction⟩
    | sendFin => exact ⟨_, rfl, h.setFlags rfl⟩
    | close =>
      refine ⟨_, rfl, h.setFlags ?_⟩
      unfold Stream.close
      split_ifs <;> rfl
    | streamExecuteClose => exact ⟨_, rfl, h.streamExecuteClose⟩

/-- After any operations, while watermarks are enabled: a raised alarm means more unsent bytes
than the clear threshold, and no alarm fewer than the alarm threshold. Since watermarks were
last enabled from the disabled state, the transitions are an alarm, a clear, an alarm and so
on, and the last of them is what the alarm says now. No operation faults. -/
theorem watermarks_settled (h : machine.Reachable x) :
    (∀ alarm clear, x.send.stream.watermarking = some (alarm, clear) →
      (x.send.stream.watermarkStatus = some true → clear < x.send.stream.unsentSize) ∧
      (x.send.stream.watermarkStatus = some false → x.send.stream.unsentSize < alarm)) ∧
    (∀ (i : Nat) (raised : Bool), x.transitions[i]? = some raised →
      (raised = true ↔ i % 2 = 0)) ∧
    (∀ raised, x.send.stream.watermarkStatus = some raised →
      x.transitions.getLast?.getD false = raised) ∧
    (∀ op, machine.enabled x op → ∃ y, machine.step x op = .ok y) := by
  obtain ⟨⟨-, -, b, hb, halarm⟩, hsettled⟩ := inv_inductive.reachable h
  refine ⟨fun alarm clear hw => ?_, fun i raised hi => hb.getElem? hi, fun raised hstatus => ?_,
    fun op hen => inv_inductive.progress h hen⟩
  case refine_2 =>
    obtain ⟨limits, hw, rfl⟩ := Option.map_eq_some_iff.mp hstatus
    rw [hb.getLast?, halarm (by simp [hw])]
  constructor
  · intro hstatus
    exact hsettled.raised alarm clear hw (by simpa [Stream.watermarkStatus, hw] using hstatus)
  · intro hstatus
    exact hsettled.quiet alarm clear hw (by simpa [Stream.watermarkStatus, hw] using hstatus)

/-- The clear callback refills the stream past the alarm threshold, so one write makes two
transitions; a second enabling with lower thresholds makes none, since the alarm is raised
already. -/
theorem watermarks_settled_refill :
    ∃ x, machine.Reachable x ∧ x.transitions = [true, false, true] ∧
      x.send.stream.watermarking = some (2, 1) ∧ 1 < x.send.stream.unsentSize := by
  have hrun : (machine.run ⟨⟨{}, {}⟩, []⟩
      [(true, .enableWatermarks 4 1 .done), (true, .send ⟨[1, 2, 3, 4], none⟩ .done),
        (true, .wrote 10 3 (.send [5, 6, 7] none .done .done)),
        (true, .enableWatermarks 2 1 .done)]).map
      (fun x => (x.transitions, x.send.stream.watermarking, x.send.stream.watermarkStatus)) =
      some ([true, false, true], some (2, 1), some true) := by decide
  obtain ⟨x, hx, hview⟩ := Option.map_eq_some_iff.mp hrun
  simp only [Prod.mk.injEq] at hview
  obtain ⟨hts, hw, hstatus⟩ := hview
  have hinit : machine.initial ⟨⟨{}, {}⟩, []⟩ := ⟨by simp [SendState.Initial], rfl, rfl⟩
  have hreach := Machine.Reachable.run (.initial hinit) hx
  exact ⟨x, hreach, hts, hw, ((watermarks_settled hreach).1 2 1 hw).1 hstatus⟩

end Watched

end Libquic
