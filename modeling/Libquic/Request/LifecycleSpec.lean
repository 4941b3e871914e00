import Libquic.Request.Lifecycle

/-!
# Request streams: every request is answered once

`Books` is what holds of the request tables at any moment, callbacks included: every accepted
command has been answered, is in `sent_reqs`, waits as a job, or is held by the function that is
about to answer it. `Armed` is what holds of the timer between operations. Both are shown once
for whatever a callback does, by induction on its commands, and then for each operation.
-/
namespace Libquic

open Lib

/-- The callbacks of the requests that a callback submits. -/
def Followup.submits : Followup → List Followup
  | .done => []
  | .command opts inner next =>
    if opts.submits then inner :: next.submits else next.submits

namespace Requests

/-! ## The invariant -/

/-- The tables agree, and each accepted command is accounted for once. `held` are the ids of
requests that are in neither table nor queue, on their way to an answer. -/
structure Books (held : Multiset Int) (s : Requests) : Prop where
  ledger : (s.accepted : Multiset Int) = s.answers.map Answer.reqId + s.sentReqs.map Prod.fst +
    s.jobs.map SentRequest.reqId + held
  nodup : s.accepted.Nodup
  fresh : ∀ id ∈ s.accepted, id < s.nextRid
  keys : ∀ e ∈ s.sentReqs, e.2.reqId = e.1
  expiries : s.reqExpiries.Perm (s.sentReqs.map fun e => (e.2.expiry, e.1))
  sorted : s.reqExpiries.Pairwise fun a b => a.1 ≤ b.1
  own : ∀ a ∈ s.answers, ∀ m ∈ a.message, m.reqId.toInt = a.reqId

/-- The timer is set for the earliest expiry, rounded up to a microsecond, or for the moment it
was set if that expiry had passed by then. -/
def Armed (s : Requests) : Prop :=
  ∀ front ∈ s.reqExpiries.head?, ∃ t ∈ s.timer,
    t.armedAt ≤ s.now ∧ t.armedAt ≤ t.deadline ∧ t.deadline ≤ max t.armedAt (front.1 + 999)

/-- The callbacks waiting for an answer. -/
def callbacks (s : Requests) : Multiset Followup := s.sentReqs.map fun e => e.2.cb

/-- What may have changed while callbacks ran that submitted requests with the callbacks `subs`. -/
structure Reacted (subs : List Followup) (s t : Requests) : Prop where
  containers : t.containers = s.containers
  isClosing : t.isClosing = s.isClosing
  jobs : t.jobs = s.jobs
  accepted : s.accepted <+: t.accepted
  armed : Armed s → Armed t
  callbacks : t.callbacks = s.callbacks + if s.isClosing then 0 else (subs : Multiset Followup)

theorem Reacted.refl (s : Requests) : Reacted [] s s where
  containers := rfl
  isClosing := rfl
  jobs := rfl
  accepted := List.prefix_refl _
  armed := id
  callbacks := by simp

theorem Reacted.trans {as bs : List Followup} {s t u : Requests} (hst : Reacted as s t)
    (htu : Reacted bs t u) : Reacted (as ++ bs) s u where
  containers := htu.containers.trans hst.containers
  isClosing := htu.isClosing.trans hst.isClosing
  jobs := htu.jobs.trans hst.jobs
  accepted := hst.accepted.trans htu.accepted
  armed h := htu.armed (hst.armed h)
  callbacks := by
    rw [htu.callbacks, hst.callbacks, hst.isClosing]
    split_ifs
    · simp
    · rw [← Multiset.coe_add, add_assoc]

/-! ## The timer -/

theorem ceilMicroseconds_le (d : Int) : ceilMicroseconds d ≤ d + 999 := by
  unfold ceilMicroseconds
  omega

/-- Setting the timer changes nothing else. -/
theorem updateTimeout_eq (s : Requests) : ∃ timer, s.updateTimeout = { s with timer := timer } := by
  unfold updateTimeout
  split
  · exact ⟨_, rfl⟩
  · exact ⟨_, rfl⟩

theorem armed_updateTimeout (s : Requests) : Armed s.updateTimeout := by
  intro front hfront
  unfold updateTimeout at hfront ⊢
  cases hexp : s.reqExpiries with
  | nil =>
    rw [hexp] at hfront
    simp at hfront
  | cons first rest =>
    rw [hexp] at hfront
    obtain rfl : first = front := by simpa [hexp] using hfront
    have hceil := ceilMicroseconds_le (first.1 - s.now)
    refine ⟨_, rfl, le_refl _, ?_, ?_⟩
    · simp only
      omega
    · simp only
      omega

theorem Books.setTimer {held : Multiset Int} {s : Requests} (h : Books held s)
    (timer : Option Timer) : Books held { s with timer := timer } :=
  { h with }

theorem Books.updateTimeout {held : Multiset Int} {s : Requests} (h : Books held s) :
    Books held s.updateTimeout := by
  obtain ⟨timer, heq⟩ := updateTimeout_eq s
  rw [heq]
  exact h.setTimer timer

/-! ## Tables -/

theorem insertExpiry_perm (expiry id : Int) (l : List (Int × Int)) :
    (insertExpiry expiry id l).Perm ((expiry, id) :: l) := by
  induction l with
  | nil => exact .refl _
  | cons e rest ih =>
    unfold insertExpiry
    split_ifs
    · exact .refl _
    · exact (ih.cons e).trans (.swap ..)

theorem insertExpiry_sorted {expiry id : Int} {l : List (Int × Int)}
    (h : l.Pairwise fun a b => a.1 ≤ b.1) :
    (insertExpiry expiry id l).Pairwise fun a b => a.1 ≤ b.1 := by
  induction l with
  | nil => simp [insertExpiry]
  | cons e rest ih =>
    obtain ⟨hfirst, hrest⟩ := List.pairwise_cons.mp h
    unfold insertExpiry
    split_ifs with hlt
    · refine List.pairwise_cons.mpr ⟨fun x hx => ?_, h⟩
      rcases List.mem_cons.mp hx with rfl | hx
      · exact hlt.le
      · exact hlt.le.trans (hfirst x hx)
    · refine List.pairwise_cons.mpr ⟨fun x hx => ?_, ih hrest⟩
      rcases List.mem_cons.mp ((insertExpiry_perm expiry id rest).mem_iff.mp hx) with rfl | hx
      · exact not_lt.mp hlt
      · exact hfirst x hx

/-- An entry that does not come to the front leaves the front as it was. -/
theorem head?_insertExpiry {expiry id : Int} {l : List (Int × Int)}
    (h : (insertExpiry expiry id l).head?.map Prod.snd ≠ some id) :
    (insertExpiry expiry id l).head? = l.head? := by
  cases l with
  | nil => simp [insertExpiry] at h
  | cons e rest =>
    unfold insertExpiry at h ⊢
    split_ifs at h ⊢
    · simp at h
    · rfl

theorem Books.nodup_keys {held : Multiset Int} {s : Requests} (h : Books held s) :
    (s.sentReqs.map Prod.fst).Nodup := by
  have hle : ((s.sentReqs.map Prod.fst : List Int) : Multiset Int) ≤ s.accepted := by
    rw [h.ledger, add_assoc, add_assoc, add_left_comm]
    exact Multiset.le_add_right _ _
  exact Multiset.coe_nodup.mp (Multiset.nodup_of_le hle (Multiset.coe_nodup.mpr h.nodup))

/-- The id of a request that is on its way is in neither table. -/
theorem Books.not_mem_keys {held : Multiset Int} {s : Requests} {id : Int}
    (h : Books (id ::ₘ held) s) : ∀ e ∈ s.sentReqs, e.1 ≠ id := by
  rintro e he rfl
  have hmem : e.1 ∈ s.sentReqs.map Prod.fst := List.mem_map.mpr ⟨e, he, rfl⟩
  have hle : e.1 ::ₘ ((s.sentReqs.map Prod.fst : List Int) : Multiset Int) ≤ s.accepted := by
    rw [h.ledger, ← Multiset.singleton_add, ← Multiset.singleton_add]
    have hsplit : ∀ a b c d x : Multiset Int, a + b + c + (x + d) = x + b + (a + c + d) := by
      intro a b c d x
      abel
    rw [hsplit]
    exact Multiset.le_add_right _ _
  have hnodup := Multiset.nodup_of_le hle (Multiset.coe_nodup.mpr h.nodup)
  exact (Multiset.nodup_cons.mp hnodup).1 hmem

/-! ## What one command does to the books -/

theorem Books.begin {held : Multiset Int} {s : Requests} (h : Books held s) (opts : CommandOpts) :
    Books held (s.begin opts) :=
  { h with
    fresh := fun id hid => (h.fresh id hid).trans (by simp [Requests.begin]) }

/-- A command that does not throw takes a new id. -/
theorem Books.accept {held : Multiset Int} {s : Requests} (h : Books held s) (opts : CommandOpts) :
    Books (s.nextRid ::ₘ held)
      { s.begin opts with accepted := s.accepted ++ [s.nextRid] } :=
  { h.begin opts with
    ledger := by
      have hledger := h.ledger
      change ((s.accepted ++ [s.nextRid] : List Int) : Multiset Int) = _
      rw [← Multiset.coe_add, hledger, Multiset.coe_singleton, ← Multiset.singleton_add]
      simp only [Requests.begin]
      abel
    nodup := by
      refine List.nodup_append.mpr ⟨h.nodup, by simp, ?_⟩
      intro a ha b hb
      have hlt := h.fresh a ha
      rw [List.mem_singleton.mp hb]
      exact hlt.ne
    fresh := by
      intro id hid
      change id < s.nextRid + 1
      rcases List.mem_append.mp hid with hid | hid
      · exact (h.fresh id hid).trans (by omega)
      · rw [List.mem_singleton.mp hid]
        omega }

theorem Books.answer {held : Multiset Int} {s : Requests} {id : Int} {m : Option Message}
    (h : Books (id ::ₘ held) s) (hown : ∀ x ∈ m, x.reqId.toInt = id) :
    Books held (s.answer id m) :=
  { h with
    ledger := by
      have hledger := h.ledger
      simp only [Requests.answer, List.map_append, List.map_cons, List.map_nil]
      rw [hledger, ← Multiset.coe_add, Multiset.coe_singleton, ← Multiset.singleton_add]
      abel
    own := by
      intro a ha
      rcases List.mem_append.mp ha with ha | ha
      · exact h.own a ha
      · rw [List.mem_singleton.mp ha]
        exact hown }

theorem reacted_answer (s : Requests) (id : Int) (m : Option Message) :
    Reacted [] s (s.answer id m) :=
  { Reacted.refl s with }

/-- A request goes into both tables, and the timer is set if it comes first. -/
theorem addSentRequest_spec {held : Multiset Int} {s : Requests} {r : SentRequest}
    (h : Books (r.reqId ::ₘ held) s) (hcontainers : s.containers = true)
    (hopen : s.isClosing = false) :
    ∃ t, s.addSentRequest r = .ok t ∧ Books held t ∧ Reacted [r.cb] s t := by
  have hperm : (OrderedMap.insert r.reqId r s.sentReqs).Perm ((r.reqId, r) :: s.sentReqs) :=
    OrderedMap.insert_perm h.not_mem_keys
  let s' : Requests := { s with
    sentReqs := OrderedMap.insert r.reqId r s.sentReqs
    reqExpiries := insertExpiry r.expiry r.reqId s.reqExpiries }
  have hbooks : Books held s' :=
    { h with
      ledger := by
        have hkeys : ((s'.sentReqs.map Prod.fst : List Int) : Multiset Int) =
            r.reqId ::ₘ (s.sentReqs.map Prod.fst : List Int) :=
          Multiset.coe_eq_coe.mpr (hperm.map Prod.fst)
        change (s.accepted : Multiset Int) = s.answers.map Answer.reqId + s'.sentReqs.map Prod.fst +
          s.jobs.map SentRequest.reqId + held
        rw [h.ledger, hkeys, ← Multiset.singleton_add, ← Multiset.singleton_add]
        abel
      keys := by
        intro e he
        rcases OrderedMap.mem_of_mem_insert he with rfl | he
        · rfl
        · exact h.keys e he
      expiries := by
        have hpairs := hperm.map fun e : Int × SentRequest => (e.2.expiry, e.1)
        exact (insertExpiry_perm _ _ _).trans ((h.expiries.cons _).trans hpairs.symm)
      sorted := insertExpiry_sorted h.sorted }
  have hcallbacks : s'.callbacks = s.callbacks + ([r.cb] : List Followup) := by
    have hmap : s'.callbacks = r.cb ::ₘ s.callbacks :=
      Multiset.coe_eq_coe.mpr (hperm.map fun e => e.2.cb)
    rw [hmap, Multiset.coe_singleton, ← Multiset.singleton_add, add_comm]
  have hadd : s.addSentRequest r = .ok
      (if s'.reqExpiries.head?.map Prod.snd = some r.reqId then s'.updateTimeout else s') :=
    if_pos hcontainers
  by_cases hfront : s'.reqExpiries.head?.map Prod.snd = some r.reqId
  · rw [if_pos hfront] at hadd
    refine ⟨_, hadd, hbooks.updateTimeout, ?_⟩
    have harmed := armed_updateTimeout s'
    obtain ⟨timer, heq⟩ := updateTimeout_eq s'
    rw [heq] at harmed ⊢
    refine ⟨rfl, rfl, rfl, List.prefix_refl _, fun _ => harmed, ?_⟩
    rw [hopen]
    exact hcallbacks
  · rw [if_neg hfront] at hadd
    refine ⟨_, hadd, hbooks, rfl, rfl, rfl, List.prefix_refl _,
      fun harmed front hmem => ?_, ?_⟩
    · exact harmed front (head?_insertExpiry hfront ▸ hmem)
    · rw [hopen]
      exact hcallbacks

/-! ## What a callback does to the books -/

/-- A callback may submit requests while the containers are there or the stream is closing. -/
def CanReact (f : Followup) (s : Requests) : Prop :=
  s.containers = true ∨ s.isClosing = true ∨ f.submits = []

theorem Reacted.canReact_iff {f : Followup} {subs : List Followup} {s t : Requests}
    (h : Reacted subs s t) : CanReact f t ↔ CanReact f s := by
  unfold CanReact
  rw [h.containers, h.isClosing]

theorem submits_command_eq_nil {opts : CommandOpts} {inner next : Followup}
    (h : (Followup.command opts inner next).submits = []) :
    opts.submits = false ∧ next.submits = [] := by
  unfold Followup.submits at h
  split_ifs at h with hsub
  exact ⟨by simpa using hsub, h⟩

theorem reacted_begin (s : Requests) (opts : CommandOpts) (ids : List Int) :
    Reacted [] s { s.begin opts with accepted := s.accepted ++ ids } where
  containers := rfl
  isClosing := rfl
  jobs := rfl
  accepted := List.prefix_append _ _
  armed h front hfront := by
    obtain ⟨t, ht, hat, hdeadline⟩ := h front hfront
    refine ⟨t, ht, hat.trans ?_, hdeadline⟩
    simp [Requests.begin]
  callbacks := by simp [Requests.callbacks, Requests.begin]

/-- One command, given what its callback does if the stream drops the request at once. -/
theorem command_spec {held : Multiset Int} {s : Requests} {opts : CommandOpts} {inner : Followup}
    (hinner : ∀ {held : Multiset Int} {s : Requests}, Books held s → s.isClosing = true →
      ∃ t, react inner s = .ok t ∧ Books held t ∧ Reacted inner.submits s t)
    (h : Books held s)
    (hcan : s.containers = true ∨ s.isClosing = true ∨ opts.submits = false) :
    ∃ t, command (react inner) s opts inner = .ok t ∧ Books held t ∧
      Reacted (if opts.submits then [inner] else []) s t := by
  by_cases hsub : opts.submits = true
  · rw [command, if_pos hsub, if_pos hsub]
    have haccept := h.accept opts
    have hbegin := reacted_begin s opts [s.nextRid]
    by_cases hclosing : s.isClosing = true
    · -- dropped, and answered on the spot
      have hanswer : Books held (Requests.answer
          { s.begin opts with accepted := s.accepted ++ [s.nextRid] } s.nextRid none) :=
        haccept.answer (by simp)
      obtain ⟨t, ht, hbooks, hreact⟩ := hinner hanswer hclosing
      refine ⟨t, (if_pos hclosing).trans ht, hbooks, ?_⟩
      have hall := (hbegin.trans (reacted_answer _ s.nextRid none)).trans hreact
      exact { hall with callbacks := by simpa [hclosing] using hall.callbacks }
    · have hopen : s.isClosing = false := by simpa using hclosing
      have hcontainers : s.containers = true := by
        rcases hcan with hc | hc | hc
        · exact hc
        · exact absurd hc hclosing
        · exact absurd hsub (by simp [hc])
      obtain ⟨t, ht, hbooks, hreact⟩ :=
        addSentRequest_spec (r := s.makeRequest opts inner) haccept hcontainers hopen
      exact ⟨t, (if_neg hclosing).trans ht, hbooks, hbegin.trans hreact⟩
  · rw [command, if_neg hsub, if_neg hsub]
    have hbegin := reacted_begin s opts []
    rw [List.append_nil] at hbegin
    exact ⟨_, rfl, h.begin opts, hbegin⟩

/-- Whatever a callback does keeps the books. -/
theorem react_spec (f : Followup) {held : Multiset Int} {s : Requests} (h : Books held s)
    (hcan : CanReact f s) :
    ∃ t, react f s = .ok t ∧ Books held t ∧ Reacted f.submits s t := by
  induction f generalizing held s with
  | done => exact ⟨s, rfl, h, Reacted.refl s⟩
  | command opts inner next ihInner ihNext =>
    have hcommand : s.containers = true ∨ s.isClosing = true ∨ opts.submits = false :=
      hcan.imp_right (Or.imp_right fun hnil => (submits_command_eq_nil hnil).1)
    obtain ⟨t, ht, hbooks, hreact⟩ :=
      command_spec (fun hb hclosing => ihInner hb (.inr (.inl hclosing))) h hcommand
    have hnext : CanReact next t := by
      apply hreact.canReact_iff.mpr
      exact hcan.imp_right (Or.imp_right fun hnil => (submits_command_eq_nil hnil).2)
    obtain ⟨u, hu, hbooks', hreact'⟩ := ihNext hbooks hnext
    refine ⟨u, by rw [react, ht]; exact hu, hbooks', ?_⟩
    have hall := hreact.trans hreact'
    unfold Followup.submits
    split_ifs with hsub
    · simpa [hsub] using hall
    · simpa [hsub] using hall

end Requests
end Libquic
