import Mathlib.Tactic

/-!
# Frames in a stream that arrives in chunks

A receiver buffers what has arrived, takes whole frames off the front of the buffer and passes each
to a handler, until the rest is not a whole frame or there is an error: the front cannot be a
frame, or the handler fails. `Framing` says what is needed for the cuts between the chunks not to
matter: whether the front of a stream is a frame depends on as many elements as the frame has.
-/
namespace Libquic.Lib

/-- How a stream is cut into frames. -/
structure Framing (α π ε : Type) where
  /-- The frame, or the error, at the front of a stream, and the number of elements that it takes;
  `none` as long as there are too few. -/
  next : List α → Option (Nat × Except ε π)
  pos : ∀ {l n r}, next l = some (n, r) → 0 < n
  length_le : ∀ {l n r}, next l = some (n, r) → n ≤ l.length
  extend : ∀ {l n r}, next l = some (n, r) → ∀ more, next (l ++ more) = some (n, r)
  take : ∀ {l n r}, next l = some (n, r) → next (l.take n) = some (n, r)

namespace Framing

variable {α π ε σ : Type}

/-- What has been made of a stream. -/
structure Outcome (α π ε σ : Type) where
  /-- the frames that were passed to the handler -/
  frames : List π := []
  state : σ
  /-- what stays in the buffer -/
  rest : List α
  /-- the error, and the number of elements after which it is found -/
  error : Option (ε × Nat) := none

/-- The outcome, when `n` elements with these frames came before. -/
def Outcome.after (frames : List π) (n : Nat) (o : Outcome α π ε σ) : Outcome α π ε σ :=
  { o with
    frames := frames ++ o.frames
    error := o.error.map fun x => (x.1, n + x.2) }

/-- Goes on with what stays in the buffer of `n` elements, unless there was an error. -/
def Outcome.andThen (o : Outcome α π ε σ) (n : Nat) (f : List α → σ → Outcome α π ε σ) :
    Outcome α π ε σ :=
  if o.error.isSome then o else (f o.rest o.state).after o.frames (n - o.rest.length)

/-- The same but for what stays in the buffer after an error. -/
structure Outcome.Same (o o' : Outcome α π ε σ) : Prop where
  frames : o.frames = o'.frames
  state : o.state = o'.state
  error : o.error = o'.error
  rest : o'.error = none → o.rest = o'.rest

variable (F : Framing α π ε) (handle : π → σ → Option ε × σ)

/-- Takes frames off the front of a buffer. -/
def drain (l : List α) (s : σ) : Outcome α π ε σ :=
  match _hnext : F.next l with
  | none => { state := s, rest := l }
  | some (n, .error e) => { state := s, rest := l, error := some (e, n) }
  | some (n, .ok p) =>
    match (handle p s).1 with
    | some e => { frames := [p], state := (handle p s).2, rest := l, error := some (e, n) }
    | none => (drain (l.drop n) (handle p s).2).after [p] n
termination_by l.length
decreasing_by
  have hpos := F.pos _hnext
  have hle := F.length_le _hnext
  rw [List.length_drop]
  omega

/-- Buffers and drains chunk after chunk, up to the first error. -/
def feed : List (List α) → List α → σ → Outcome α π ε σ
  | [], buf, s => { state := s, rest := buf }
  | chunk :: chunks, buf, s =>
    (F.drain handle (buf ++ chunk) s).andThen (buf ++ chunk).length (feed chunks)

variable {F handle} {l more : List α} {n : Nat} {p : π} {e : ε} {s : σ}

/-! ## One frame -/

theorem drain_of_none (h : F.next l = none) : F.drain handle l s = { state := s, rest := l } := by
  rw [drain]
  split <;> simp_all

theorem drain_of_error (h : F.next l = some (n, .error e)) :
    F.drain handle l s = { state := s, rest := l, error := some (e, n) } := by
  rw [drain]
  split <;> simp_all

theorem drain_of_fail (h : F.next l = some (n, .ok p)) (hp : (handle p s).1 = some e) :
    F.drain handle l s =
      { frames := [p], state := (handle p s).2, rest := l, error := some (e, n) } := by
  rw [drain]
  split
  · simp_all
  · simp_all
  · split <;> simp_all

theorem drain_of_ok (h : F.next l = some (n, .ok p)) (hp : (handle p s).1 = none) :
    F.drain handle l s = (F.drain handle (l.drop n) (handle p s).2).after [p] n := by
  rw [drain]
  split
  · simp_all
  · simp_all
  · split <;> simp_all

/-- The four ways in which the front of a buffer can be dealt with. -/
theorem drain_cases (F : Framing α π ε) (handle : π → σ → Option ε × σ)
    {P : List α → σ → Prop} (hnone : ∀ l s, F.next l = none → P l s)
    (herror : ∀ l s n e, F.next l = some (n, .error e) → P l s)
    (hfail : ∀ l s n p e, F.next l = some (n, .ok p) → (handle p s).1 = some e → P l s)
    (hok : ∀ l s n p, F.next l = some (n, .ok p) → (handle p s).1 = none →
      P (l.drop n) (handle p s).2 → P l s) (l : List α) (s : σ) : P l s := by
  induction hlen : l.length using Nat.strong_induction_on generalizing l s with
  | _ m ih =>
    cases hnext : F.next l with
    | none => exact hnone l s hnext
    | some x =>
      obtain ⟨n, e | p⟩ := x
      · exact herror l s n e hnext
      · cases hp : (handle p s).1 with
        | some e => exact hfail l s n p e hnext hp
        | none =>
          have hpos := F.pos hnext
          have hle := F.length_le hnext
          exact hok l s n p hnext hp (ih _ (by rw [List.length_drop]; omega) _ _ rfl)

theorem next_nil (F : Framing α π ε) : F.next [] = none := by
  cases hnext : F.next [] with
  | none => rfl
  | some x =>
    have hpos := F.pos hnext
    have hle := F.length_le hnext
    simp at hle
    omega

/-- The front of a stream is cut as the stream is. -/
theorem next_take {r : Except ε π} {k : Nat} (h : F.next l = some (n, r)) (hk : n ≤ k) :
    F.next (l.take k) = some (n, r) := by
  have hsplit : l.take n ++ (l.take k).drop n = l.take k := by
    have htake : (l.take k).take n = l.take n := by rw [List.take_take, Nat.min_eq_left hk]
    rw [← htake, List.take_append_drop]
  rw [← hsplit]
  exact F.extend (F.take h) _

/-! ## Outcomes -/

@[simp] theorem Outcome.after_nil (o : Outcome α π ε σ) : o.after [] 0 = o := by
  simp [Outcome.after]

theorem Outcome.after_after (o : Outcome α π ε σ) (frames frames' : List π) (n n' : Nat) :
    (o.after frames' n').after frames n = o.after (frames ++ frames') (n + n') := by
  simp [Outcome.after, Nat.add_assoc, Function.comp_def]

@[simp] theorem Outcome.after_error_eq_none (o : Outcome α π ε σ) (frames : List π) (n : Nat) :
    (o.after frames n).error = none ↔ o.error = none := Option.map_eq_none_iff

theorem Outcome.andThen_of_none {o : Outcome α π ε σ} (h : o.error = none) (n : Nat)
    (f : List α → σ → Outcome α π ε σ) :
    o.andThen n f = (f o.rest o.state).after o.frames (n - o.rest.length) := by
  simp [Outcome.andThen, h]

theorem Outcome.andThen_of_some {o : Outcome α π ε σ} {x : ε × Nat} (h : o.error = some x)
    (n : Nat) (f : List α → σ → Outcome α π ε σ) : o.andThen n f = o := by
  simp [Outcome.andThen, h]

theorem Outcome.after_andThen {o : Outcome α π ε σ} {m : Nat} (hrest : o.rest.length ≤ m)
    (frames : List π) (n : Nat) (f : List α → σ → Outcome α π ε σ) :
    (o.after frames n).andThen (n + m) f = (o.andThen m f).after frames n := by
  cases herror : o.error with
  | none =>
    have hlen : n + m - o.rest.length = n + (m - o.rest.length) := by omega
    rw [andThen_of_none herror, andThen_of_none ((o.after_error_eq_none frames n).mpr herror),
      after_after, ← hlen]
    rfl
  | some x =>
    have hafter : (o.after frames n).error = some (x.1, n + x.2) := by simp [after, herror]
    rw [andThen_of_some herror, andThen_of_some hafter]

namespace Outcome.Same

variable {o o' o'' : Outcome α π ε σ}

theorem refl (o : Outcome α π ε σ) : o.Same o := ⟨rfl, rfl, rfl, fun _ => rfl⟩

theorem symm (h : o.Same o') : o'.Same o :=
  ⟨h.frames.symm, h.state.symm, h.error.symm, fun hnone => (h.rest (h.error ▸ hnone)).symm⟩

theorem trans (h : o.Same o') (h' : o'.Same o'') : o.Same o'' :=
  ⟨h.frames.trans h'.frames, h.state.trans h'.state, h.error.trans h'.error,
    fun hnone => (h.rest (h'.error ▸ hnone)).trans (h'.rest hnone)⟩

theorem after (h : o.Same o') (frames : List π) (n : Nat) :
    (o.after frames n).Same (o'.after frames n) :=
  ⟨congrArg (frames ++ ·) h.frames, h.state, congrArg (Option.map _) h.error,
    fun hnone => h.rest ((o'.after_error_eq_none frames n).mp hnone)⟩

theorem andThen {n : Nat} {f g : List α → σ → Outcome α π ε σ}
    (h : o.error = none → (f o.rest o.state).Same (g o.rest o.state)) :
    (o.andThen n f).Same (o.andThen n g) := by
  cases herror : o.error with
  | none =>
    rw [andThen_of_none herror, andThen_of_none herror]
    exact (h herror).after _ _
  | some x =>
    rw [andThen_of_some herror, andThen_of_some herror]
    exact .refl o

end Outcome.Same

/-! ## Streams -/

section Drain

variable (F : Framing α π ε) (handle : π → σ → Option ε × σ) (l : List α) (s : σ)

theorem length_rest_le : (F.drain handle l s).rest.length ≤ l.length := by
  induction l, s using drain_cases F handle with
  | hnone l s hnext => rw [drain_of_none hnext]
  | herror l s n e hnext => rw [drain_of_error hnext]
  | hfail l s n p e hnext hp => rw [drain_of_fail hnext hp]
  | hok l s n p hnext hp ih =>
    rw [drain_of_ok hnext hp]
    exact ih.trans (by simp)

/-- Without an error the rest is not a whole frame. -/
theorem next_rest (h : (F.drain handle l s).error = none) :
    F.next (F.drain handle l s).rest = none := by
  induction l, s using drain_cases F handle with
  | hnone l s hnext => rwa [drain_of_none hnext]
  | herror l s n e hnext => simp [drain_of_error hnext] at h
  | hfail l s n p e hnext hp => simp [drain_of_fail hnext hp] at h
  | hok l s n p hnext hp ih =>
    rw [drain_of_ok hnext hp] at h ⊢
    exact ih ((Outcome.after_error_eq_none _ _ _).mp h)

/-- An error is found within the stream. -/
theorem error_le {e : ε} {n : Nat} (h : (F.drain handle l s).error = some (e, n)) :
    n ≤ l.length := by
  induction l, s using drain_cases F handle generalizing n with
  | hnone l s hnext => simp [drain_of_none hnext] at h
  | herror l s m e' hnext =>
    rw [drain_of_error hnext] at h
    obtain ⟨-, rfl⟩ := Prod.mk.inj (Option.some.inj h)
    exact F.length_le hnext
  | hfail l s m p e' hnext hp =>
    rw [drain_of_fail hnext hp] at h
    obtain ⟨-, rfl⟩ := Prod.mk.inj (Option.some.inj h)
    exact F.length_le hnext
  | hok l s m p hnext hp ih =>
    have hle := F.length_le hnext
    rw [drain_of_ok hnext hp] at h
    obtain ⟨⟨e', k⟩, hk, heq⟩ := Option.map_eq_some_iff.mp h
    obtain ⟨rfl, rfl⟩ := Prod.mk.inj heq
    have hrest := ih hk
    rw [List.length_drop] at hrest
    omega

/-- Whether a stream has an error at some place depends on what comes before that place. -/
theorem error_take {e : ε} {n k : Nat} (h : (F.drain handle l s).error = some (e, n))
    (hk : n ≤ k) : (F.drain handle (l.take k) s).error = some (e, n) := by
  induction l, s using drain_cases F handle generalizing n k with
  | hnone l s hnext => simp [drain_of_none hnext] at h
  | herror l s m e' hnext =>
    rw [drain_of_error hnext] at h
    obtain ⟨rfl, rfl⟩ := Prod.mk.inj (Option.some.inj h)
    rw [drain_of_error (next_take hnext hk)]
  | hfail l s m p e' hnext hp =>
    rw [drain_of_fail hnext hp] at h
    obtain ⟨rfl, rfl⟩ := Prod.mk.inj (Option.some.inj h)
    rw [drain_of_fail (next_take hnext hk) hp]
  | hok l s m p hnext hp ih =>
    rw [drain_of_ok hnext hp] at h
    obtain ⟨⟨e', j⟩, hj, heq⟩ := Option.map_eq_some_iff.mp h
    obtain ⟨rfl, rfl⟩ := Prod.mk.inj heq
    have htake := ih (k := k - m) hj (by omega)
    rw [drain_of_ok (next_take hnext (by omega)) hp, List.drop_take]
    exact Option.map_eq_some_iff.mpr ⟨_, htake, rfl⟩

/-- What has been drained is not looked at again. -/
theorem drain_append (more : List α) :
    (F.drain handle (l ++ more) s).Same
      ((F.drain handle l s).andThen l.length fun rest => F.drain handle (rest ++ more)) := by
  induction l, s using drain_cases F handle with
  | hnone l s hnext =>
    rw [drain_of_none hnext]
    simpa [Outcome.andThen] using Outcome.Same.refl _
  | herror l s n e hnext =>
    rw [drain_of_error hnext, drain_of_error (F.extend hnext more)]
    exact ⟨rfl, rfl, rfl, by simp [Outcome.andThen]⟩
  | hfail l s n p e hnext hp =>
    rw [drain_of_fail hnext hp, drain_of_fail (F.extend hnext more) hp]
    exact ⟨rfl, rfl, rfl, by simp [Outcome.andThen]⟩
  | hok l s n p hnext hp ih =>
    have hle := F.length_le hnext
    have hrest := F.length_rest_le handle (l.drop n) (handle p s).2
    have hlen : l.length = n + (l.drop n).length := by
      rw [List.length_drop]
      omega
    rw [drain_of_ok hnext hp, drain_of_ok (F.extend hnext more) hp,
      List.drop_append_of_le_length hle, hlen, Outcome.after_andThen hrest]
    exact ih.after [p] n

/-- The cuts between the chunks do not matter. -/
theorem feed_same (chunks : List (List α)) {buf : List α} (hbuf : F.next buf = none) :
    (F.feed handle chunks buf s).Same (F.drain handle (buf ++ chunks.flatten) s) := by
  induction chunks generalizing buf s with
  | nil =>
    rw [List.flatten_nil, List.append_nil, drain_of_none hbuf]
    exact .refl _
  | cons chunk chunks ih =>
    rw [List.flatten_cons, ← List.append_assoc]
    refine .trans ?_ (F.drain_append handle (buf ++ chunk) s chunks.flatten).symm
    apply Outcome.Same.andThen
    intro herror
    exact ih _ (F.next_rest handle _ s herror)

/-- An error of a stream has been found after a part of it exactly if it is in that part. -/
theorem error_append (more : List α) : (F.drain handle l s).error =
    (F.drain handle (l ++ more) s).error.filter fun x => x.2 ≤ l.length := by
  have hsame := (F.drain_append handle l s more).error
  cases hl : (F.drain handle l s).error with
  | some x =>
    rw [Outcome.andThen_of_some hl, hl] at hsame
    have hle := F.error_le handle l s (e := x.1) (n := x.2) hl
    rw [hsame, Option.filter_some, if_pos (decide_eq_true hle)]
  | none =>
    cases hall : (F.drain handle (l ++ more) s).error with
    | none => rfl
    | some x =>
      have hlt : ¬ x.2 ≤ l.length := by
        intro hle
        have htake := F.error_take handle (l ++ more) s (e := x.1) (n := x.2) hall hle
        rw [List.take_left, hl] at htake
        cases htake
      rw [Option.filter_some, if_neg (by simpa using hlt)]

end Drain

/-- Frames one after the other are found again. -/
theorem drain_frames {frames : List (List α × π)}
    (hok : ∀ f ∈ frames, ∀ s, (handle f.2 s).1 = none)
    (hframes : ∀ f ∈ frames, ∀ more, F.next (f.1 ++ more) = some (f.1.length, .ok f.2)) (s : σ) :
    ∃ state, F.drain handle (frames.map Prod.fst).flatten s =
      { frames := frames.map Prod.snd, state := state, rest := [] } := by
  induction frames generalizing s with
  | nil => exact ⟨s, drain_of_none F.next_nil⟩
  | cons f frames ih =>
    obtain ⟨state, hrest⟩ := ih (fun g hg => hok g (by simp [hg]))
      (fun g hg => hframes g (by simp [hg])) (handle f.2 s).2
    have hnext := hframes f (by simp) (frames.map Prod.fst).flatten
    refine ⟨state, ?_⟩
    rw [List.map_cons, List.flatten_cons, drain_of_ok hnext (hok f (by simp) s), List.drop_left,
      hrest]
    rfl

end Framing

end Libquic.Lib
