import Libquic.Lib.Machine
import Libquic.Request.Message

/-!
# Request streams: where the data is cut

The parser is compared with itself on the same data one byte at a time. Its loop can be cut
after any byte but one, the colon of an empty frame, since there `process_incoming` returns and
the rest of the chunk is lost. `receive` adds a second such place: a message whose handler
closes the stream, since the rest of that chunk is still handled and later chunks are not.
Data cut at those places is read the same however else it is cut.
-/
namespace Libquic

open Lib Lib.Bencode

variable {μ : Type}

/-- Go on with the state the parser has left, unless it threw. -/
def Outcome.andThen (o : Outcome μ) (f : Incoming μ → Outcome μ) : Outcome μ :=
  match o with
  | .done s => f s
  | .threw s what => .threw s what
  | .fault f => .fault f

@[simp] theorem Outcome.andThen_done (s : Incoming μ) (f : Incoming μ → Outcome μ) :
    (Outcome.done s).andThen f = f s := rfl

/-! ## Cutting the loop after a byte -/

section Cut

variable {env : RequestEnv μ} {s : Incoming μ}

theorem body_of_full {req : Bytes} (h : s.currentLen ≤ s.buf.length) :
    s.body env req = .stop (.fault .assertion) := by
  simp [Incoming.body, dataAccumulator, Nat.not_lt.mpr h]

theorem body_of_short {req : Bytes} (h : s.buf.length + req.length < s.currentLen) :
    s.body env req = .next { s with buf := s.buf ++ req } [] := by
  have hlt : s.buf.length < s.currentLen := by omega
  have hmin : min (s.buf.length + req.length) s.currentLen = s.buf.length + req.length := by omega
  have hne : s.buf.length + req.length ≠ s.currentLen := by omega
  simp [Incoming.body, dataAccumulator, hlt, hmin, hne]

/-- A message still short of its end after a byte takes the byte in. -/
theorem body_cons_of_short {b : UInt8} (req : Bytes) (h : s.buf.length + 1 < s.currentLen) :
    s.body env (b :: req) = { s with buf := s.buf ++ [b] }.body env req := by
  have hlt : s.buf.length < s.currentLen := by omega
  have hmin : min (s.buf.length + (req.length + 1)) s.currentLen - s.buf.length =
      min (s.buf.length + 1 + req.length) s.currentLen - (s.buf.length + 1) + 1 := by omega
  simp [Incoming.body, dataAccumulator, hlt, h, hmin]

/-- The last byte of a message completes it, whatever follows. -/
theorem body_cons_of_last {b : UInt8} (req : Bytes) (h : s.buf.length + 1 = s.currentLen) :
    s.body env (b :: req) = ({ s with buf := s.buf ++ [b] }.handle env).resume req := by
  have hlt : s.buf.length < s.currentLen := by omega
  have hmin : min (s.buf.length + (req.length + 1)) s.currentLen - s.buf.length = 1 := by omega
  simp [Incoming.body, dataAccumulator, hlt, hmin, h]

/-- What the loop makes of one turn. -/
def Turn.continue (env : RequestEnv μ) : Turn μ → Outcome μ
  | .stop o => o
  | .next s req => processIncoming env s req

theorem processIncoming_turn (env : RequestEnv μ) (s : Incoming μ) {req : Bytes} (h : req ≠ []) :
    processIncoming env s req = (s.turn env req).continue env := by
  rw [processIncoming_eq env s h]
  cases s.turn env req <;> rfl

theorem turn_of_pos {req : Bytes} (h : s.currentLen ≠ 0) : s.turn env req = s.body env req :=
  if_neg h

/-- Inside a message the rest of the data is read as if it came by itself. -/
theorem body_continue (h : s.currentLen ≠ 0) (req : Bytes) (hshort : s.buf.length < s.currentLen) :
    (s.body env req).continue env = processIncoming env s req := by
  cases req with
  | nil =>
    rw [body_of_short (by simpa using hshort)]
    simp [Turn.continue]
  | cons b req => rw [processIncoming_turn env s (List.cons_ne_nil _ _), turn_of_pos h]

theorem body_cons (h : s.currentLen ≠ 0) (b : UInt8) (req : Bytes) :
    (s.body env (b :: req)).continue env =
      ((s.body env [b]).continue env).andThen fun s => processIncoming env s req := by
  rcases Nat.lt_trichotomy (s.buf.length + 1) s.currentLen with hlt | heq | hgt
  · have hshort : (s.buf ++ [b]).length < s.currentLen := by simpa using hlt
    have hone : s.body env [b] = .next { s with buf := s.buf ++ [b] } [] := body_of_short hlt
    rw [body_cons_of_short req hlt, hone,
      body_continue (s := { s with buf := s.buf ++ [b] }) h req hshort]
    rfl
  · rw [body_cons_of_last req heq, body_cons_of_last [] heq]
    cases { s with buf := s.buf ++ [b] }.handle env <;> rfl
  · have hfull : s.currentLen ≤ s.buf.length := by omega
    rw [body_of_full hfull, body_of_full hfull]
    rfl

end Cut

/-- The byte is the colon of an empty frame. -/
def Incoming.EndsEmptyFrame (s : Incoming μ) (b : UInt8) : Prop :=
  s.currentLen = 0 ∧ prefixAccumulator s.sizeBuf [b] = .size 0 [] []

instance (s : Incoming μ) (b : UInt8) : Decidable (s.EndsEmptyFrame b) :=
  inferInstanceAs (Decidable (_ ∧ _))

/-- What follows a length prefix, once it has been read. -/
def Incoming.afterPrefix (env : RequestEnv μ) (s : Incoming μ) (n : Nat) (req : Bytes) : Turn μ :=
  if env.maxReqLen < n then
    .stop (.threw { s with sizeBuf := [], currentLen := n } "Request exceeds maximum size!")
  else { s with sizeBuf := [], currentLen := n }.body env req

theorem afterPrefix_cut (env : RequestEnv μ) (s : Incoming μ) {n : Nat} (hn : n ≠ 0) (req : Bytes) :
    (s.afterPrefix env n req).continue env =
      ((s.afterPrefix env n []).continue env).andThen fun s => processIncoming env s req := by
  unfold Incoming.afterPrefix
  split_ifs
  · rfl
  · by_cases hfull : n ≤ s.buf.length
    · rw [body_of_full hfull, body_of_full hfull]
      rfl
    · have hshort : s.buf.length < n := by omega
      rw [body_continue (s := { s with sizeBuf := [], currentLen := n }) hn req hshort,
        body_continue (s := { s with sizeBuf := [], currentLen := n }) hn [] hshort]
      rfl

theorem turn_of_size {env : RequestEnv μ} {s : Incoming μ} {req rest : Bytes} {n : Nat}
    (hlen : s.currentLen = 0) (h : prefixAccumulator s.sizeBuf req = .size n [] rest) (hn : n ≠ 0) :
    s.turn env req = s.afterPrefix env n rest := by
  rw [Incoming.turn, if_pos hlen, h]
  exact if_neg hn

/-- What one byte does to a length prefix: it is a digit that is kept, it ends the prefix, or the
prefix is refused, in each case whatever follows. -/
theorem prefixAccumulator_cons (digits : Bytes) (b : UInt8) :
    (∃ kept, ∀ req, prefixAccumulator digits (b :: req) = prefixAccumulator kept req) ∨
    (∃ n, ∀ req, prefixAccumulator digits (b :: req) = .size n [] req) ∨
    (∃ kept what, ∀ req, prefixAccumulator digits (b :: req) = .threw kept what) ∨
    (∃ f, ∀ req, prefixAccumulator digits (b :: req) = .fault f) := by
  simp only [prefixAccumulator]
  split_ifs
  · exact .inr (.inr (.inl ⟨_, _, fun _ => rfl⟩))
  · exact .inl ⟨_, fun _ => rfl⟩
  · exact .inr (.inr (.inl ⟨_, _, fun _ => rfl⟩))
  · exact .inr (.inr (.inr ⟨_, fun _ => rfl⟩))
  · exact .inr (.inl ⟨_, fun _ => rfl⟩)
  · exact .inr (.inr (.inl ⟨_, _, fun _ => rfl⟩))

/-- The loop can be cut after any byte that does not end an empty frame. -/
theorem processIncoming_cons (env : RequestEnv μ) (s : Incoming μ) (b : UInt8) (req : Bytes)
    (h : ¬ s.EndsEmptyFrame b) :
    processIncoming env s (b :: req) =
      (processIncoming env s [b]).andThen fun s => processIncoming env s req := by
  rw [processIncoming_turn env s (List.cons_ne_nil b req),
    processIncoming_turn env s (List.cons_ne_nil b [])]
  by_cases hlen : s.currentLen = 0
  · obtain ⟨kept, hkept⟩ | ⟨n, hsize⟩ | ⟨kept, what, hthrew⟩ | ⟨f, hfault⟩ :=
      prefixAccumulator_cons s.sizeBuf b
    · -- the digit is kept, and the rest is read behind it
      have hturn : s.turn env (b :: req) = { s with sizeBuf := kept }.turn env req := by
        simp only [Incoming.turn, if_pos hlen, hkept]
      have hone : s.turn env [b] = .stop (.done { s with sizeBuf := kept }) := by
        rw [Incoming.turn, if_pos hlen, hkept]
        rfl
      rw [hturn, hone]
      cases req with
      | nil =>
        rw [Incoming.turn, if_pos hlen]
        rfl
      | cons c more => exact (processIncoming_turn env _ (List.cons_ne_nil c more)).symm
    · have hn : n ≠ 0 := by
        rintro rfl
        exact h ⟨hlen, hsize []⟩
      rw [turn_of_size hlen (hsize req) hn, turn_of_size hlen (hsize []) hn]
      exact afterPrefix_cut env s hn req
    · rw [Incoming.turn, Incoming.turn, if_pos hlen, if_pos hlen, hthrew, hthrew]
      rfl
    · rw [Incoming.turn, Incoming.turn, if_pos hlen, if_pos hlen, hfault, hfault]
      rfl
  · rw [turn_of_pos hlen, turn_of_pos hlen]
    exact body_cons hlen b req

/-! ## Cutting what is received -/

/-- The byte completes a message whose handler closes the stream, without an exception. -/
def Incoming.endsClosing (env : RequestEnv μ) (s : Incoming μ) (b : UInt8) : Bool :=
  s.currentLen == s.buf.length + 1 && match env.message (s.buf ++ [b]) with
    | .ok m =>
      let h := env.handleInput (s.handled ++ [m])
      h.closes.isSome && h.throws.isNone
    | .error _ => false

/-- The places where data has to be cut: behind the colon of an empty frame, and behind a message
whose handler closes the stream. -/
def Incoming.mustCut (env : RequestEnv μ) (s : Incoming μ) (b : UInt8) : Bool :=
  decide (s.EndsEmptyFrame b) || s.endsClosing env b

/-- Nothing follows, within the chunk, where it has to be cut. -/
def cleanChunk (env : RequestEnv μ) : Incoming μ → Bytes → Bool
  | _, [] => true
  | s, b :: req => (req.isEmpty || !s.mustCut env b) && match processIncoming env s [b] with
      | .done s' => cleanChunk env s' req
      | _ => true

/-- Every chunk the stream reads is clean; once it is closing it reads none. -/
def cleanRun (env : RequestEnv μ) : Incoming μ → List Bytes → Bool
  | _, [] => true
  | s, chunk :: chunks => (s.isClosing || cleanChunk env s chunk) && match receive env s chunk with
      | .ok s' => cleanRun env s' chunks
      | .error _ => true

/-- Data one byte at a time. -/
def singly (data : Bytes) : List Bytes := data.map fun b => [b]

@[simp] theorem receiveAll_nil (env : RequestEnv μ) (s : Incoming μ) :
    receiveAll env s [] = .ok s := rfl

@[simp] theorem receiveAll_cons (env : RequestEnv μ) (s : Incoming μ) (chunk : Bytes)
    (chunks : List Bytes) : receiveAll env s (chunk :: chunks) =
      receive env s chunk >>= fun s => receiveAll env s chunks := by
  simp [receiveAll]

theorem receiveAll_append (env : RequestEnv μ) (s : Incoming μ) (cs ds : List Bytes) :
    receiveAll env s (cs ++ ds) = receiveAll env s cs >>= fun s => receiveAll env s ds := by
  simp [receiveAll]

theorem receive_of_closing {env : RequestEnv μ} {s : Incoming μ} (h : s.isClosing = true)
    (data : Bytes) : receive env s data = .ok s := if_pos h

theorem receiveAll_of_closing {env : RequestEnv μ} {s : Incoming μ} (h : s.isClosing = true)
    (chunks : List Bytes) : receiveAll env s chunks = .ok s := by
  induction chunks with
  | nil => rfl
  | cons chunk chunks ih =>
    rw [receiveAll_cons, receive_of_closing h]
    exact ih

theorem close_isClosing (s : Incoming μ) (code : Nat) : (s.close code).isClosing = true := by
  unfold Incoming.close
  split_ifs with h
  · exact h
  · rfl

/-- What `receive` does with the end of `process_incoming`. -/
def Outcome.settle : Outcome μ → Except Fault (Incoming μ)
  | .done s => .ok s
  | .threw s _ => .ok (s.close btreqErrorException)
  | .fault f => .error f

theorem receive_of_open {env : RequestEnv μ} {s : Incoming μ} (h : s.isClosing = false)
    (data : Bytes) : receive env s data = (processIncoming env s data).settle := by
  rw [receive, if_neg (by simp [h])]
  cases processIncoming env s data <;> rfl

theorem not_endsEmptyFrame {env : RequestEnv μ} {s : Incoming μ} {b : UInt8}
    (h : s.mustCut env b = false) : ¬ s.EndsEmptyFrame b := by
  intro hends
  simp [Incoming.mustCut, hends] at h

/-- A message after which the parser goes on was closed by its handler, if by anyone. -/
theorem handle_closed {env : RequestEnv μ} {s s' : Incoming μ} (hdone : s.handle env = .done s') :
    s'.closed = s.closed ∨ ∃ m, env.message s.buf = .ok m ∧
      (env.handleInput (s.handled ++ [m])).closes.isSome = true ∧
      (env.handleInput (s.handled ++ [m])).throws = none := by
  unfold Incoming.handle at hdone
  cases hm : env.message s.buf with
  | error what =>
    rw [hm] at hdone
    cases hdone
  | ok m =>
    rw [hm] at hdone
    dsimp only at hdone
    cases hthrows : (env.handleInput (s.handled ++ [m])).throws with
    | some what =>
      rw [hthrows] at hdone
      cases hdone
    | none =>
      rw [hthrows] at hdone
      cases hcloses : (env.handleInput (s.handled ++ [m])).closes with
      | none =>
        rw [hcloses] at hdone
        cases hdone
        exact .inl rfl
      | some code => exact .inr ⟨m, rfl, by rw [hcloses]; rfl, hthrows⟩

/-- Inside a message, one byte closes the stream only through the handler. -/
theorem body_closed {env : RequestEnv μ} {s s' : Incoming μ} {b : UInt8}
    (h : s.endsClosing env b = false) (hdone : (s.body env [b]).continue env = .done s') :
    s'.closed = s.closed := by
  rcases Nat.lt_trichotomy (s.buf.length + 1) s.currentLen with hlt | heq | hgt
  · rw [body_of_short hlt] at hdone
    cases hdone
    rfl
  · rw [body_cons_of_last [] heq] at hdone
    cases hhandle : { s with buf := s.buf ++ [b] }.handle env with
    | threw t what =>
      rw [hhandle] at hdone
      cases hdone
    | fault f =>
      rw [hhandle] at hdone
      cases hdone
    | done t =>
      rw [hhandle] at hdone
      cases hdone
      refine (handle_closed hhandle).resolve_right ?_
      rintro ⟨m, hm, hcloses, hthrows⟩
      simp [Incoming.endsClosing, ← heq, hm, hcloses, hthrows] at h
  · rw [body_of_full (by omega)] at hdone
    cases hdone

theorem open_of_not_mustCut {env : RequestEnv μ} {s s' : Incoming μ} {b : UInt8}
    (hopen : s.isClosing = false) (h : s.mustCut env b = false)
    (hdone : processIncoming env s [b] = .done s') : s'.isClosing = false := by
  have hends := not_endsEmptyFrame h
  have hcloses : s.endsClosing env b = false := ((Bool.or_eq_false_iff).mp h).2
  suffices hclosed : s'.closed = s.closed by rwa [Incoming.isClosing, hclosed]
  rw [processIncoming_turn env s (List.cons_ne_nil b [])] at hdone
  by_cases hlen : s.currentLen = 0
  · obtain ⟨kept, hkept⟩ | ⟨n, hsize⟩ | ⟨kept, what, hthrew⟩ | ⟨f, hfault⟩ :=
      prefixAccumulator_cons s.sizeBuf b
    · rw [Incoming.turn, if_pos hlen, hkept] at hdone
      cases hdone
      rfl
    · have hn : n ≠ 0 := by
        rintro rfl
        exact hends ⟨hlen, hsize []⟩
      rw [turn_of_size hlen (hsize []) hn, Incoming.afterPrefix] at hdone
      split_ifs at hdone
      · cases hdone
      · by_cases hfull : n ≤ s.buf.length
        · rw [body_of_full hfull] at hdone
          cases hdone
        · rw [body_of_short (by simpa using hfull)] at hdone
          cases hdone
          rfl
    · rw [Incoming.turn, if_pos hlen, hthrew] at hdone
      cases hdone
    · rw [Incoming.turn, if_pos hlen, hfault] at hdone
      cases hdone
  · rw [turn_of_pos hlen] at hdone
    exact body_closed hcloses hdone

theorem receive_eq_singly (env : RequestEnv μ) {s : Incoming μ} {data : Bytes}
    (hopen : s.isClosing = false) (h : cleanChunk env s data = true) :
    receive env s data = receiveAll env s (singly data) := by
  induction data generalizing s with
  | nil => simp [singly, receive_of_open hopen, Outcome.settle]
  | cons b req ih =>
    obtain ⟨hcut, hrest⟩ := (Bool.and_eq_true _ _).mp h
    change _ = receiveAll env s ([b] :: singly req)
    by_cases hnil : req = []
    · subst hnil
      cases hone : receive env s [b] with
      | error f => simp [singly, hone]; rfl
      | ok s' => simp [singly, hone]
    · have hmust : s.mustCut env b = false := by simpa [hnil] using hcut
      rw [receiveAll_cons, receive_of_open hopen, receive_of_open hopen,
        processIncoming_cons env s b req (not_endsEmptyFrame hmust)]
      cases hone : processIncoming env s [b] with
      | fault f => rfl
      | threw s' what =>
        -- the exception has closed the stream, which takes in nothing more
        exact (receiveAll_of_closing (close_isClosing s' _) _).symm
      | done s' =>
        have hopen' := open_of_not_mustCut hopen hmust hone
        have hread := ih hopen' (by simpa [hone] using hrest)
        rw [receive_of_open hopen'] at hread
        exact hread

theorem receiveAll_eq_singly (env : RequestEnv μ) {s : Incoming μ} {chunks : List Bytes}
    (h : cleanRun env s chunks = true) :
    receiveAll env s chunks = receiveAll env s (singly chunks.flatten) := by
  induction chunks generalizing s with
  | nil => rfl
  | cons chunk chunks ih =>
    obtain ⟨hclean, hrest⟩ := (Bool.and_eq_true _ _).mp h
    have hchunk : receive env s chunk = receiveAll env s (singly chunk) := by
      cases hclosing : s.isClosing with
      | true => rw [receive_of_closing hclosing, receiveAll_of_closing hclosing]
      | false => exact receive_eq_singly env hclosing (by simpa [hclosing] using hclean)
    have hsplit : singly (chunk :: chunks).flatten = singly chunk ++ singly chunks.flatten := by
      simp [singly]
    rw [hsplit, receiveAll_append, receiveAll_cons, ← hchunk]
    cases hread : receive env s chunk with
    | error f => rfl
    | ok s' => exact ih (by simpa [hread] using hrest)

/-- Data that is cut wherever it has to be is read the same however else it is cut: the messages
handled, and by which error and after which of them the stream is closed. -/
theorem chunking_irrelevant (env : RequestEnv μ) (cs ds : List Bytes)
    (hsame : cs.flatten = ds.flatten) (hcs : cleanRun env {} cs = true)
    (hds : cleanRun env {} ds = true) : receiveAll env {} cs = receiveAll env {} ds := by
  rw [receiveAll_eq_singly env hcs, receiveAll_eq_singly env hds, hsame]

/-! ## Where the cut matters -/

/-- A stream whose handlers all answer a message the same way. -/
def answering (maxReqLen : Nat) (h : Handling) : RequestEnv Message where
  maxReqLen := maxReqLen
  message := Message.parse
  handleInput _ := h

/-- The frame of a reply to request 5, `11:l1:Ri5e1:ae`. -/
def replyFrame : Bytes := [49, 49, 58, 108, 49, 58, 82, 105, 53, 101, 49, 58, 97, 101]

/-- An empty frame, `0:`. -/
def emptyFrame : Bytes := [48, 58]

theorem chunking_irrelevant_reply :
    receiveAll (answering 100 {}) {} [replyFrame.take 2, replyFrame.drop 2 ++ emptyFrame] =
      receiveAll (answering 100 {}) {} [replyFrame ++ emptyFrame] :=
  chunking_irrelevant _ _ _ (by decide) (by decide +kernel) (by decide +kernel)

/-- A message behind an empty frame is lost if it came in the same chunk, and a message behind
one whose handler closed the stream is handled only if it came in the same chunk. -/
theorem chunking_matters :
    ((receiveAll (answering 100 {}) {} [emptyFrame ++ replyFrame]).toOption.map Incoming.handled =
        some [] ∧
      (receiveAll (answering 100 {}) {} [emptyFrame, replyFrame]).toOption.map Incoming.handled =
        some [⟨typeReply, 5, [], [97]⟩]) ∧
    ((receiveAll (answering 100 { closes := some 0 }) {} [replyFrame ++ replyFrame]).toOption.map
        (fun s => s.handled.length) = some 2 ∧
      (receiveAll (answering 100 { closes := some 0 }) {} [replyFrame, replyFrame]).toOption.map
        (fun s => s.handled.length) = some 1) := by
  decide +kernel

end Libquic
