import Libquic.Lib.Machine
import Libquic.Request.Handlers

/-!
# Request streams: the round trip

Every command and response the sender lets through reaches the other side's `handle_input` as it
was sent, however the stream cuts the data. The frames are followed byte by byte: the digits of the
length, the colon, and the message. None of these bytes is a place where the data has to be cut, so
the byte-wise run carries over to every other one.

It ends early if an exception leaves `handle_input`, and so if the receiver has to respond to a
command with an error that is itself too long to be sent.
-/
namespace Libquic

open Lib Lib.Bencode

variable {μ : Type} {env : RequestEnv μ}

/-! ## Runs that may be cut anywhere -/

/-- Reading the data byte by byte, past no place where it has to be cut. -/
inductive Feeds (env : RequestEnv μ) : Incoming μ → Bytes → Incoming μ → Prop where
  | nil (s : Incoming μ) : Feeds env s [] s
  | cons {s s' t : Incoming μ} {b : UInt8} {req : Bytes} (hends : ¬ s.EndsEmptyFrame b)
      (hdone : processIncoming env s [b] = .done s') (hopen : s'.isClosing = false)
      (hrest : Feeds env s' req t) : Feeds env s (b :: req) t

theorem Feeds.append {s t u : Incoming μ} {a c : Bytes} (hac : Feeds env s a t)
    (hc : Feeds env t c u) : Feeds env s (a ++ c) u := by
  induction hac with
  | nil => exact hc
  | cons hends hdone hopen _ ih => exact .cons hends hdone hopen (ih hc)

theorem Feeds.split {s u : Incoming μ} {a c : Bytes} (h : Feeds env s (a ++ c) u) :
    ∃ t, Feeds env s a t ∧ Feeds env t c u := by
  induction a generalizing s with
  | nil => exact ⟨s, .nil s, h⟩
  | cons b a ih =>
    cases h with
    | cons hends hdone hopen hrest =>
      obtain ⟨t, hat, hcu⟩ := ih hrest
      exact ⟨t, .cons hends hdone hopen hat, hcu⟩

theorem Feeds.processIncoming_append {s t : Incoming μ} {data : Bytes} (h : Feeds env s data t)
    (req : Bytes) : processIncoming env s (data ++ req) = processIncoming env t req := by
  induction h with
  | nil => rfl
  | cons hends hdone _ _ ih =>
    rw [List.cons_append, processIncoming_cons env _ _ _ hends, hdone, Outcome.andThen_done, ih]

theorem Feeds.processIncoming {s t : Incoming μ} {data : Bytes} (h : Feeds env s data t) :
    processIncoming env s data = .done t := by
  simpa using h.processIncoming_append []

theorem Feeds.isClosing {s t : Incoming μ} {data : Bytes} (h : Feeds env s data t)
    (hs : s.isClosing = false) : t.isClosing = false := by
  induction h with
  | nil => exact hs
  | cons _ _ hopen _ ih => exact ih hopen

theorem Feeds.receiveAll {s t : Incoming μ} {chunks : List Bytes} (hs : s.isClosing = false)
    (h : Feeds env s chunks.flatten t) : receiveAll env s chunks = .ok t := by
  induction chunks generalizing s with
  | nil =>
    cases h
    rfl
  | cons chunk chunks ih =>
    obtain ⟨m, hchunk, hrest⟩ := Feeds.split (by simpa using h)
    rw [receiveAll_cons, receive_of_open hs, hchunk.processIncoming]
    exact ih (hchunk.isClosing hs) hrest

/-! ## One frame -/

theorem feeds_digits (handled : List μ) (digits : Bytes) {more : Bytes} (hdigit : ∀ c ∈ more, isDigit c = true)
    (hlen : (digits ++ more).length ≤ maxReqLenEncoded) :
    Feeds env { sizeBuf := digits, handled := handled } more
      { sizeBuf := digits ++ more, handled := handled } := by
  induction more generalizing digits with
  | nil =>
    rw [List.append_nil]
    exact .nil _
  | cons c more ih =>
    have hc : isDigit c = true := hdigit c (by simp)
    have hshort : ¬ maxReqLenEncoded < (digits ++ [c]).length := by
      simp only [List.length_append, List.length_cons, List.length_nil] at hlen ⊢
      omega
    have hone : prefixAccumulator digits [c] = .more (digits ++ [c]) := by
      simp [prefixAccumulator, hc]
      simpa using hshort
    have hrest := ih (digits ++ [c]) (fun d hd => hdigit d (by simp [hd]))
      (by simpa using hlen)
    rw [List.append_assoc, List.singleton_append] at hrest
    refine .cons ?_ ?_ rfl hrest
    · rintro ⟨-, hsize⟩
      rw [hone] at hsize
      cases hsize
    · rw [processIncoming_turn env _ (List.cons_ne_nil c []), Incoming.turn, if_pos rfl, hone]
      rfl

theorem feeds_colon (handled : List μ) {n : Nat} (hpos : 0 < n) (hmax : n ≤ env.maxReqLen) :
    Feeds env { sizeBuf := decimal n, handled := handled } [colon]
      { currentLen := n, handled := handled } := by
  have hlead : ¬ (1 < (decimal n).length ∧ (decimal n).head? = some (digitChar 0)) :=
    fun h => head_decimal h.1 h.2
  have hone : prefixAccumulator (decimal n) [colon] = .size n [] [] := by
    rw [prefixAccumulator, if_neg (by decide), if_pos rfl, if_neg hlead,
      if_neg (decimal_ne_nil n), decimalValue_decimal]
  refine .cons ?_ ?_ rfl (.nil _)
  · rintro ⟨-, hsize⟩
    rw [hone] at hsize
    cases hsize
    exact absurd hpos (Nat.lt_irrefl 0)
  · have hbody : ({ currentLen := n, handled := handled } : Incoming μ).body env [] =
        .next { currentLen := n, handled := handled } [] := body_of_short hpos
    rw [processIncoming_turn env _ (List.cons_ne_nil _ _), turn_of_size rfl hone (by omega),
      Incoming.afterPrefix, if_neg (by omega), hbody]
    rfl

/-- All of a message but its end is put into the buffer. -/
theorem feeds_body (handled : List μ) {n : Nat} (start : Bytes) {rest : Bytes}
    (h : (start ++ rest).length < n) :
    Feeds env { currentLen := n, buf := start, handled := handled } rest
      { currentLen := n, buf := start ++ rest, handled := handled } := by
  induction rest generalizing start with
  | nil =>
    rw [List.append_nil]
    exact .nil _
  | cons b rest ih =>
    have hmore := ih (start ++ [b]) (by simpa using h)
    have hlen : n ≠ 0 := by omega
    rw [List.append_assoc, List.singleton_append] at hmore
    refine .cons (fun hends => hlen hends.1) ?_ rfl hmore
    rw [processIncoming_turn env _ (List.cons_ne_nil _ _), turn_of_pos hlen,
      body_of_short (by simp at h ⊢; omega)]
    rfl

/-- All of a frame but its last byte. -/
theorem feeds_frame_start (handled : List μ) {start : Bytes} {b : UInt8}
    (hmax : (start ++ [b]).length ≤ env.maxReqLen)
    (hdigits : (start ++ [b]).length < 10 ^ maxReqLenEncoded) :
    Feeds env { handled := handled } (decimal (start ++ [b]).length ++ colon :: start)
      { currentLen := (start ++ [b]).length, buf := start, handled := handled } := by
  have hshort : (decimal (start ++ [b]).length).length ≤ maxReqLenEncoded :=
    length_decimal_le (by decide) hdigits
  have hprefix : Feeds env { handled := handled } (decimal (start ++ [b]).length)
      { sizeBuf := decimal (start ++ [b]).length, handled := handled } :=
    feeds_digits handled [] (fun c hc => isDigit_of_mem_decimal hc) (by simpa using hshort)
  exact hprefix.append ((feeds_colon handled (by simp) hmax).append
    (feeds_body handled [] (by simp)))

theorem processIncoming_last (handled : List μ) (start : Bytes) (b : UInt8) :
    processIncoming env
        { currentLen := (start ++ [b]).length, buf := start, handled := handled } [b] =
      ((Incoming.handle env
        { currentLen := (start ++ [b]).length
          buf := start ++ [b]
          handled := handled }).resume []).continue env := by
  rw [processIncoming_turn env _ (List.cons_ne_nil _ _), turn_of_pos (by simp),
    body_cons_of_last [] (by simp)]

theorem not_endsEmptyFrame_last (handled : List μ) (start : Bytes) (b : UInt8) :
    ¬ Incoming.EndsEmptyFrame
      { currentLen := (start ++ [b]).length, buf := start, handled := handled } b :=
  fun h => absurd h.1 (by simp)

theorem string_append_singleton (start : Bytes) (b : UInt8) :
    string (start ++ [b]) = (decimal (start ++ [b]).length ++ colon :: start) ++ [b] := by
  simp [string]

theorem feeds_frame (handled : List μ) {m : μ} {start : Bytes} {b : UInt8}
    (hmax : (start ++ [b]).length ≤ env.maxReqLen)
    (hdigits : (start ++ [b]).length < 10 ^ maxReqLenEncoded)
    (hm : env.message (start ++ [b]) = .ok m) (hquiet : env.handleInput (handled ++ [m]) = {}) :
    Feeds env { handled := handled } (string (start ++ [b])) { handled := handled ++ [m] } := by
  rw [string_append_singleton]
  refine (feeds_frame_start handled hmax hdigits).append
    (.cons (not_endsEmptyFrame_last handled start b) ?_ rfl (.nil _))
  rw [processIncoming_last]
  simp [Incoming.handle, hm, hquiet, Outcome.resume, Turn.continue]

/-! ## Runs that end with an exception -/

/-- Reading the data byte by byte, an exception comes that leaves `t`. -/
def Breaks (env : RequestEnv μ) (s : Incoming μ) (data : Bytes) (t : Incoming μ) : Prop :=
  ∃ a b rest u what, data = a ++ b :: rest ∧ Feeds env s a u ∧ ¬ u.EndsEmptyFrame b ∧
    processIncoming env u [b] = .threw t what

theorem Feeds.breaks {s t u : Incoming μ} {a c : Bytes} (h : Feeds env s a t)
    (hbreaks : Breaks env t c u) : Breaks env s (a ++ c) u := by
  obtain ⟨a', b, rest, v, what, rfl, hfeeds, hends, hthrew⟩ := hbreaks
  exact ⟨a ++ a', b, rest, v, what, by simp, h.append hfeeds, hends, hthrew⟩

theorem Breaks.append {s t : Incoming μ} {a : Bytes} (h : Breaks env s a t) (c : Bytes) :
    Breaks env s (a ++ c) t := by
  obtain ⟨a', b, rest, v, what, rfl, hfeeds, hends, hthrew⟩ := h
  exact ⟨a', b, rest ++ c, v, what, by simp, hfeeds, hends, hthrew⟩

/-- Nothing behind the exception is read, in the same chunk or a later one. -/
theorem Breaks.receiveAll {s t : Incoming μ} {chunks : List Bytes} (hs : s.isClosing = false)
    (h : Breaks env s chunks.flatten t) :
    receiveAll env s chunks = .ok (t.close btreqErrorException) := by
  obtain ⟨a, b, rest, u, what, hdata, hfeeds, hends, hthrew⟩ := h
  induction chunks generalizing s a with
  | nil => simp at hdata
  | cons chunk chunks ih =>
    rw [List.flatten_cons] at hdata
    rw [receiveAll_cons, receive_of_open hs]
    obtain ⟨more, rfl, hrest⟩ | ⟨more, rfl, hrest⟩ := List.append_eq_append_iff.mp hdata
    · -- the exception comes later
      obtain ⟨v, hchunk, hmore⟩ := hfeeds.split
      rw [hchunk.processIncoming]
      exact ih (hchunk.isClosing hs) more hrest hmore
    · cases more with
      | nil =>
        rw [List.append_nil, hfeeds.processIncoming]
        exact ih (hfeeds.isClosing hs) [] (by simpa using hrest.symm) (.nil u)
      | cons c more =>
        obtain ⟨rfl, rfl⟩ := List.cons.inj hrest
        rw [hfeeds.processIncoming_append, processIncoming_cons env u b more hends, hthrew]
        exact receiveAll_of_closing (close_isClosing t _) _

theorem breaks_frame (handled : List μ) {m : μ} {start : Bytes} {b : UInt8} {what : String}
    (hmax : (start ++ [b]).length ≤ env.maxReqLen)
    (hdigits : (start ++ [b]).length < 10 ^ maxReqLenEncoded)
    (hm : env.message (start ++ [b]) = .ok m)
    (hthrows : env.handleInput (handled ++ [m]) = { throws := some what }) :
    Breaks env { handled := handled } (string (start ++ [b]))
      { currentLen := (start ++ [b]).length, handled := handled ++ [m] } := by
  refine ⟨_, b, [], _, what, string_append_singleton start b,
    feeds_frame_start handled hmax hdigits, not_endsEmptyFrame_last handled start b, ?_⟩
  rw [processIncoming_last]
  simp [Incoming.handle, hm, hthrows, Outcome.resume, Turn.continue]

/-! ## The whole stream -/

theorem mapM_frame {maxReqLen : Nat} {sends : List Send} {frames : List Bytes}
    (h : sends.mapM (Send.frame maxReqLen) = .ok frames) :
    frames = sends.map (fun x => string x.encode) ∧
      ∀ x ∈ sends, (string x.encode).length ≤ maxReqLen := by
  induction sends generalizing frames with
  | nil =>
    cases h
    simp
  | cons x sends ih =>
    rw [List.mapM_cons] at h
    obtain ⟨data, hdata, h⟩ := bind_ok h
    obtain ⟨more, hmore, h⟩ := bind_ok h
    cases h
    obtain ⟨rfl, hlen⟩ := frame_eq_ok hdata
    obtain ⟨rfl, hrest⟩ := ih hmore
    simpa using ⟨hlen, hrest⟩

namespace RequestStream

variable {p : RequestStream} {runs : Nat → HandlerRun}

/-- What the parser learns of the handling of the `n`-th message. -/
theorem env_handleInput (hopen : p.closed = none) (hcloses : ∀ k, (runs k).closes = none)
    {messages : List Message} {n : Nat} {m : Message} (hm : messages[n]? = some m)
    (hnone : (p.after runs messages n).2 = none) :
    (p.env runs).handleInput (messages.take n ++ [m]) =
      { throws := ((p.after runs messages n).1.handleInput m (runs n)).2 } := by
  obtain ⟨hlt, rfl⟩ := List.getElem?_eq_some_iff.mp hm
  have htake : messages.take n ++ [messages[n]] = messages.take (n + 1) := by simp
  have hlen : (messages.take (n + 1)).length = n + 1 := by simp; omega
  have hafter : p.after runs (messages.take (n + 1)) (n + 1) =
      (p.after runs messages n).1.handleInput messages[n] (runs n) := by
    rw [after_congr le_rfl fun i hi => List.getElem?_take_of_lt hi, after, proceed_of_none hnone,
      hm]
  have hclosed := (same_after hcloses (messages.take (n + 1)) p (n + 1)).closed.trans hopen
  rw [htake, env]
  dsimp only
  rw [hlen, hclosed, hafter]

/-- The first `n` frames are read, up to an exception if there is one. -/
theorem feeds_or_breaks (hmax : p.maxReqLen ≤ 999999999) (hopen : p.closed = none)
    (hcloses : ∀ k, (runs k).closes = none) {sends : List Send}
    (hfits : ∀ x ∈ sends, (string x.encode).length ≤ p.maxReqLen) {messages : List Message}
    (hmessages : messages = sends.map Send.toMessage) (n : Nat) (hn : n ≤ sends.length) :
    (Feeds (p.env runs) {} ((sends.take n).flatMap fun x => string x.encode)
        { handled := messages.take n } ∧ (p.after runs messages n).2 = none ∧
      ∀ k < n, ∀ m, messages[k]? = some m → ¬ (p.after runs messages k).1.Overlong m (runs k)) ∨
    ∃ k < n, ∃ m t, messages[k]? = some m ∧ (p.after runs messages k).1.Overlong m (runs k) ∧
      Breaks (p.env runs) {} ((sends.take n).flatMap fun x => string x.encode) t ∧
      t.handled = messages.take (k + 1) := by
  induction n with
  | zero =>
    refine .inl ⟨?_, rfl, by simp⟩
    rw [List.take_zero, List.take_zero]
    exact .nil _
  | succ n ih =>
    have hlt : n < sends.length := hn
    have hm : messages[n]? = some (sends[n].toMessage) := by simp [hmessages, hlt]
    have htake : messages.take (n + 1) = messages.take n ++ [sends[n].toMessage] := by
      rw [List.take_add_one, hm]
      rfl
    have hdata : (sends.take (n + 1)).flatMap (fun x => string x.encode) =
        (sends.take n).flatMap (fun x => string x.encode) ++ string sends[n].encode := by
      rw [List.take_add_one, List.getElem?_eq_getElem hlt, List.flatMap_append]
      simp
    rw [hdata]
    obtain ⟨hfeeds, hnone, hall⟩ | ⟨k, hk, m, t, hmk, hlong, hbreaks, ht⟩ := ih (by omega)
    · -- the sender has counted the length prefix as well
      have hlen : sends[n].encode.length ≤ p.maxReqLen := by
        have := hfits _ (List.getElem_mem hlt)
        simp only [string, List.length_append, List.length_cons] at this
        omega
      have hdigits : sends[n].encode.length < 10 ^ maxReqLenEncoded := by
        simp only [maxReqLenEncoded]
        omega
      have hparse : (p.env runs).message sends[n].encode = .ok sends[n].toMessage :=
        parse_encode _
      have hinput := env_handleInput hopen hcloses hm hnone
      have hthrown := handleInput_thrown (hcloses n) sends[n].toMessage
        (p.after runs messages n).1
      obtain ⟨start, b, hsplit⟩ : ∃ start b, sends[n].encode = start ++ [b] :=
        ⟨_, _, (List.dropLast_concat_getLast (encode_ne_nil _)).symm⟩
      rw [hsplit] at hlen hdigits hparse ⊢
      cases hthrows : ((p.after runs messages n).1.handleInput sends[n].toMessage (runs n)).2 with
      | none =>
        rw [hthrows] at hinput hthrown
        refine .inl ⟨?_, ?_, fun k hk m hmk => ?_⟩
        · rw [htake]
          exact hfeeds.append (feeds_frame _ hlen hdigits hparse hinput)
        · rw [after, proceed_of_none hnone, hm]
          exact hthrows
        · rcases Nat.lt_succ_iff_lt_or_eq.mp hk with hk | rfl
          · exact hall k hk m hmk
          · obtain rfl := Option.some.inj (hm.symm.trans hmk)
            exact mt hthrown.mpr (by simp)
      | some what =>
        rw [hthrows] at hinput hthrown
        exact .inr ⟨n, Nat.lt_succ_self n, _, _, hm, hthrown.mp rfl,
          hfeeds.breaks (breaks_frame _ hlen hdigits hparse hinput), htake.symm⟩
    · exact .inr ⟨k, by omega, m, t, hmk, hlong, hbreaks.append _, ht⟩

end RequestStream

/-- Whatever commands and responses pass the sender's size check, and however the data is cut, a
stream with the same limit hands over messages in the order in which they were sent. Whatever its
handlers do, except for closing the stream, it hands over all of them without an error exactly if
there is none to which it has to respond with an error that is too long. -/
theorem frames_round_trip_iff (p : RequestStream) (hmax : p.maxReqLen ≤ 999999999)
    (hopen : p.closed = none) (runs : Nat → HandlerRun) (hcloses : ∀ k, (runs k).closes = none)
    (sends : List Send) (frames : List Bytes)
    (hsent : sends.mapM (Send.frame p.maxReqLen) = .ok frames) (chunks : List Bytes)
    (hcut : chunks.flatten = frames.flatten) :
    (∃ s, receiveAll (p.env runs) {} chunks = .ok s ∧
      s.handled <+: sends.map Send.toMessage) ∧
    (receiveAll (p.env runs) {} chunks = .ok { handled := sends.map Send.toMessage } ↔
      ∀ k m, (sends.map Send.toMessage)[k]? = some m →
        ¬ (p.after runs (sends.map Send.toMessage) k).1.Overlong m (runs k)) := by
  obtain ⟨rfl, hfits⟩ := mapM_frame hsent
  have hlen : (sends.map Send.toMessage).length = sends.length := List.length_map _
  have hdata : chunks.flatten = (sends.take sends.length).flatMap fun x => string x.encode := by
    rw [hcut, List.take_length, List.flatMap_def]
  obtain ⟨hfeeds, -, hall⟩ | ⟨k, -, m, t, hm, hlong, hbreaks, ht⟩ :=
    p.feeds_or_breaks hmax hopen hcloses hfits rfl sends.length le_rfl
  · rw [← hdata, ← hlen, List.take_length] at hfeeds
    have hall' : ∀ k m, (sends.map Send.toMessage)[k]? = some m →
        ¬ (p.after runs (sends.map Send.toMessage) k).1.Overlong m (runs k) := by
      intro k m hm
      obtain ⟨hk, -⟩ := List.getElem?_eq_some_iff.mp hm
      exact hall k (hlen ▸ hk) m hm
    have hread := hfeeds.receiveAll rfl
    exact ⟨⟨_, hread, List.prefix_rfl⟩, iff_of_true hread hall'⟩
  · rw [← hdata] at hbreaks
    have hread := hbreaks.receiveAll rfl
    refine ⟨⟨_, hread, ?_⟩, iff_of_false ?_ fun hall => hall k m hm hlong⟩
    · have hhandled : (t.close btreqErrorException).handled = t.handled := by
        unfold Incoming.close
        split_ifs <;> rfl
      rw [hhandled, ht]
      exact List.take_prefix ..
    · intro heq
      have hclosing := close_isClosing t btreqErrorException
      rw [Except.ok.inj (hread.symm.trans heq)] at hclosing
      cases hclosing

/-- The frame of a command to endpoint `x` with an empty body, `13:l1:Ci7e1:x0:e`. -/
def commandFrame : Bytes :=
  [49, 51, 58, 108, 49, 58, 67, 105, 55, 101, 49, 58, 120, 48, 58, 101]

/-- A reply and a command, in three pieces cut inside both frames, for a stream without handlers. -/
theorem frames_round_trip_three_pieces :
    receiveAll (RequestStream.env (fun _ => {}) { maxReqLen := 100 }) {}
      [replyFrame.take 5, replyFrame.drop 5 ++ commandFrame.take 2, commandFrame.drop 2] =
      .ok { handled := [⟨typeReply, 5, [], [97]⟩, ⟨typeCommand, 7, [120], []⟩] } := by
  refine (frames_round_trip_iff { maxReqLen := 100 } (by decide) rfl (fun _ => {}) (fun _ => rfl)
    [.response 5 [97] false, .command [120] 7 []] [replyFrame, commandFrame] (by decide +kernel) _
    (by decide)).2.mpr fun k m hm => ?_
  rcases k with _ | _ | k
  · cases hm
    decide +kernel
  · cases hm
    decide +kernel
  · simp at hm

/-- With `max_request_size` 16 the command fits. The stream has no handler for it, and the error
response does not fit: the stream is closed, and a second command is not read. -/
theorem overlong_error_response_closes :
    let p : RequestStream := { maxReqLen := 16 }
    let sends : List Send := [.command [120] 7 [], .command [120] 7 []]
    sends.mapM (Send.frame p.maxReqLen) = .ok [commandFrame, commandFrame] ∧
      receiveAll (p.env fun _ => {}) {} [commandFrame, commandFrame] =
        .ok
          { currentLen := 13
            handled := [⟨typeCommand, 7, [120], []⟩]
            closed := some ⟨btreqErrorException, 1⟩ } := by
  decide +kernel

end Libquic
