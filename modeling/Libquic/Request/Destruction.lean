import Libquic.Request.Punctual

/-!
# Request streams: destruction

The destructor answers whatever is left, in three rounds: the discarded jobs, the requests moved
out of `sent_reqs`, and those that callbacks have put in since, which go down with the member
itself. A callback of the last round that issues yet another command writes to a map under
destruction.
-/
namespace Libquic.Requests

open Lib

/-- A stream that is not closing can be destroyed if the callbacks that run then do not issue
commands through too many levels: those of outstanding requests through one, those of discarded
jobs through two, not counting commands without a callback. -/
def Shallow (s : Requests) : Prop :=
  s.isClosing = true ∨
    (∀ f ∈ s.callbacks, ∀ g ∈ f.submits, g.submits = []) ∧
    ∀ r ∈ s.jobs, ∀ f ∈ r.cb.submits, ∀ g ∈ f.submits, g.submits = []

/-- With the maps under destruction a stream that is not closing cannot take a request. -/
theorem submit_ok {callback : Requests → Except Fault Requests} {s t : Requests} {r : SentRequest}
    (h : submit callback s r = .ok t) : s.isClosing = true ∨ s.containers = true := by
  by_contra hnot
  rw [not_or] at hnot
  rw [submit, if_neg hnot.1, addSentRequest, if_neg hnot.2] at h
  cases h

/-- A callback that has run through could submit what it submitted. -/
theorem canReact_of_react {f : Followup} {s t : Requests} (h : react f s = .ok t) :
    CanReact f s := by
  induction f generalizing s with
  | done => exact .inr (.inr rfl)
  | command opts inner next _ ihNext =>
    by_cases hcontainers : s.containers = true
    · exact .inl hcontainers
    by_cases hclosing : s.isClosing = true
    · exact .inr (.inl hclosing)
    obtain ⟨u, hu, hnext⟩ := bind_ok h
    unfold Requests.command at hu
    split_ifs at hu with hsub
    · -- the request has gone into a container
      rcases submit_ok hu with hc | hc
      · exact absurd hc hclosing
      · exact absurd hc hcontainers
    · cases hu
      rcases ihNext hnext with hc | hc | hc
      · exact absurd hc hcontainers
      · exact absurd hc hclosing
      · refine .inr (.inr ?_)
        rw [Followup.submits, if_neg hsub]
        exact hc

theorem canReact_of_timeOutAll {held : Multiset Int} {s t : Requests} (rs : List SentRequest)
    (h : Books (rs.map SentRequest.reqId + held) s) (hok : rs.foldlM timeOut s = .ok t) :
    ∀ r ∈ rs, CanReact r.cb s := by
  induction rs generalizing s with
  | nil => simp
  | cons r rs ih =>
    rw [List.foldlM_cons] at hok
    obtain ⟨u, hu, hrest⟩ := bind_ok hok
    have hran : CanReact r.cb (s.answer r.reqId none) := canReact_of_react hu
    have hfirst : CanReact r.cb s := hran
    rw [List.map_cons, ← Multiset.cons_coe, Multiset.cons_add] at h
    obtain ⟨u', hu', hbooks, hreact⟩ := timeOut_spec h hfirst
    obtain rfl : u' = u := Except.ok.inj (hu'.symm.trans hu)
    intro x hx
    rcases List.mem_cons.mp hx with rfl | hx
    · exact hfirst
    · exact hreact.canReact_iff.mp (ih hbooks hrest x hx)

theorem map_snd_reqId {held : Multiset Int} {s : Requests} (h : Books held s) :
    (s.sentReqs.map Prod.snd).map SentRequest.reqId = s.sentReqs.map Prod.fst := by
  rw [List.map_map]
  exact List.map_congr_left fun e he => h.keys e he

/-- Empty the tables, with their requests on their way. -/
theorem Books.emptied {s : Requests} (h : Books 0 s) (timer : Option Timer) (containers : Bool) :
    Books ((s.sentReqs.map Prod.snd).map SentRequest.reqId + (0 : Multiset Int))
      { s with
        sentReqs := [], reqExpiries := [], timer := timer, containers := containers } :=
  { h with
    ledger := by
      have hledger := h.ledger
      rw [map_snd_reqId h]
      simp only [List.map_nil, Multiset.coe_nil, add_zero] at hledger ⊢
      rw [hledger]
      abel
    keys := by simp
    expiries := .refl _
    sorted := .nil }

theorem stopJobs_spec {s : Requests} (h : Inv s) :
    ∃ t, s.stopJobs = .ok t ∧ Books 0 t ∧ t.jobs = [] ∧ t.containers = true ∧
      t.isClosing = s.isClosing ∧ s.accepted <+: t.accepted ∧
      t.callbacks = s.callbacks + if s.isClosing then 0 else
        ((s.jobs.flatMap fun r => r.cb.submits : List Followup) : Multiset Followup) := by
  have hheld : Books (s.jobs.map SentRequest.reqId + (0 : Multiset Int)) { s with jobs := [] } :=
    { h.books with
      ledger := by
        have hledger := h.books.ledger
        simp only [List.map_nil, Multiset.coe_nil, add_zero] at hledger ⊢
        exact hledger }
  obtain ⟨t, ht, hbooks, hreact⟩ := timeOutAll_spec s.jobs hheld fun r _ => .inl h.containers
  exact ⟨t, ht, hbooks, hreact.jobs, hreact.containers.trans h.containers, hreact.isClosing,
    hreact.accepted, hreact.callbacks⟩

/-- The callbacks left for the members are those that the second round has submitted. -/
theorem clearRequests_spec {s : Requests} (h : Books 0 s) (hcontainers : s.containers = true) :
    ∃ t, s.clearRequests = .ok t ∧ Books 0 t ∧ t.jobs = s.jobs ∧
      t.isClosing = s.isClosing ∧ s.accepted <+: t.accepted ∧
      ∀ g, g ∈ t.callbacks ↔ s.isClosing = false ∧ ∃ f ∈ s.callbacks, g ∈ f.submits := by
  have hheld := h.emptied s.timer s.containers
  obtain ⟨t, ht, hbooks, hreact⟩ := timeOutAll_spec _ hheld fun r _ => .inl hcontainers
  refine ⟨t, ht, hbooks, hreact.jobs, hreact.isClosing, hreact.accepted, fun g => ?_⟩
  rw [hreact.callbacks]
  cases hclosing : s.isClosing with
  | true => simp [Requests.callbacks]
  | false =>
    simp only [Requests.callbacks, List.map_nil, Multiset.coe_nil, zero_add, Bool.false_eq_true,
      if_false, Multiset.mem_coe, List.mem_flatMap, List.mem_map, true_and]
    grind

theorem destroyMembers_canReact {s t : Requests} (h : Books 0 s) (ht : s.destroyMembers = .ok t) :
    s.isClosing = true ∨ ∀ f ∈ s.callbacks, f.submits = [] := by
  have hcan := canReact_of_timeOutAll _ (h.emptied none false) ht
  by_cases hclosing : s.isClosing = true
  · exact .inl hclosing
  · refine .inr fun f hf => ?_
    obtain ⟨e, he, rfl⟩ := List.mem_map.mp (Multiset.mem_coe.mp hf)
    rcases hcan e.2 (List.mem_map.mpr ⟨e, he, rfl⟩) with hc | hc | hc
    · cases hc
    · exact absurd hc hclosing
    · exact hc

theorem destroyMembers_spec {s : Requests} (h : Books 0 s)
    (hquiet : s.isClosing = true ∨ ∀ f ∈ s.callbacks, f.submits = []) :
    ∃ t, s.destroyMembers = .ok t ∧ Books 0 t ∧ t.sentReqs = [] ∧ t.jobs = s.jobs ∧
      s.accepted <+: t.accepted := by
  have hheld := h.emptied none false
  have hcan : ∀ r ∈ s.sentReqs.map Prod.snd, CanReact r.cb
      { s with sentReqs := [], reqExpiries := [], timer := none, containers := false } := by
    intro r hr
    obtain ⟨e, he, rfl⟩ := List.mem_map.mp hr
    rcases hquiet with hclosing | hquiet
    · exact .inr (.inl hclosing)
    · exact .inr (.inr (hquiet _ (Multiset.mem_coe.mpr (List.mem_map.mpr ⟨e, he, rfl⟩))))
  obtain ⟨t, ht, hbooks, hreact⟩ := timeOutAll_spec _ hheld hcan
  refine ⟨t, ht, hbooks, ?_, hreact.jobs, hreact.accepted⟩
  have hnone : t.callbacks = 0 := by
    rw [hreact.callbacks]
    rcases hquiet with hclosing | hquiet
    · simp [Requests.callbacks, hclosing]
    · have hsubs : ((s.sentReqs.map Prod.snd).flatMap fun r => r.cb.submits) = [] := by
        rw [List.flatMap_eq_nil_iff]
        intro r hr
        obtain ⟨e, he, rfl⟩ := List.mem_map.mp hr
        exact hquiet _ (Multiset.mem_coe.mpr (List.mem_map.mpr ⟨e, he, rfl⟩))
      simp [Requests.callbacks, hsubs]
  simpa [Requests.callbacks] using hnone

/-- Every command accepted by the end has been answered once, each reply with its own id. -/
def AllAnswered (s t : Requests) : Prop :=
  s.accepted <+: t.accepted ∧ t.accepted.Nodup ∧
    (t.answers.map Answer.reqId).Perm t.accepted ∧
    ∀ a ∈ t.answers, ∀ m ∈ a.message, m.reqId.toInt = a.reqId

theorem Books.answers_perm {t : Requests} (h : Books 0 t) (hsent : t.sentReqs = [])
    (hjobs : t.jobs = []) : (t.answers.map Answer.reqId).Perm t.accepted := by
  have hledger := h.ledger
  simp only [hsent, hjobs, List.map_nil, Multiset.coe_nil, add_zero] at hledger
  exact (Multiset.coe_eq_coe.mp hledger).symm

theorem destroy_iff {s : Requests} (h : Inv s) :
    (∃ t, s.destroy = .ok t ∧ AllAnswered s t) ↔ Shallow s := by
  obtain ⟨a, ha, hbooksA, hjobsA, hcontA, hclosA, haccA, hcbA⟩ := stopJobs_spec h
  obtain ⟨b, hb, hbooksB, hjobsB, hclosB, haccB, hcbB⟩ := clearRequests_spec hbooksA hcontA
  have hdestroy : s.destroy = b.destroyMembers := by
    rw [Requests.destroy, ha, ok_bind, hb, ok_bind]
  have hshallow : (b.isClosing = true ∨ ∀ f ∈ b.callbacks, f.submits = []) ↔ Shallow s := by
    rw [hclosB, hclosA]
    by_cases hclosing : s.isClosing = true
    · simp [Shallow, hclosing]
    · have hopen : s.isClosing = false := by simpa using hclosing
      simp only [hcbB, hclosA, hopen, hcbA, Shallow]
      simp only [Bool.false_eq_true, false_or, if_false, true_and, Multiset.mem_add,
        Multiset.mem_coe, List.mem_flatMap]
      grind
  rw [← hshallow, hdestroy]
  constructor
  · rintro ⟨t, ht, -⟩
    exact destroyMembers_canReact hbooksB ht
  · intro hquiet
    obtain ⟨t, ht, hbooks, hsent, hjobs, hacc⟩ := destroyMembers_spec hbooksB hquiet
    exact ⟨t, ht, haccA.trans (haccB.trans hacc), hbooks.nodup,
      hbooks.answers_perm hsent (hjobs.trans (hjobsB.trans hjobsA)), hbooks.own⟩

/-- Between operations no operation can fail, the two tables list the same requests, no callback has
run twice and none with another's message. The timer is set for no later than the first expiry
exactly if that had not passed by the time it was set, and so throughout every timely run. A stream
destroyed then has answered every command once, provided its callbacks are shallow, and writes to a
map under destruction otherwise. -/
theorem answered_once_iff {s : Requests} (h : machine.Reachable s) :
    (∀ op, s.enabled op → ∃ t, s.step op = .ok t) ∧
    ((s.sentReqs.map Prod.fst).Nodup ∧
      s.reqExpiries.Perm (s.sentReqs.map fun e => (e.2.expiry, e.1)) ∧
      s.reqExpiries.Pairwise fun a b => a.1 ≤ b.1) ∧
    ((∀ front ∈ s.reqExpiries.head?, ∃ t ∈ s.timer,
      t.armedAt ≤ s.now ∧ t.deadline ≤ max t.armedAt (front.1 + 999) ∧
        (t.deadline ≤ front.1 + 999 ↔ t.armedAt ≤ front.1 + 999)) ∧
      (timely.Reachable s → ∀ front ∈ s.reqExpiries.head?, ∃ t ∈ s.timer,
        t.deadline ≤ front.1 + 999)) ∧
    ((s.answers.map Answer.reqId).Nodup ∧
      ∀ a ∈ s.answers, ∀ m ∈ a.message, m.reqId.toInt = a.reqId) ∧
    ((∃ t, s.destroy = .ok t ∧ AllAnswered s t) ↔ Shallow s) := by
  have hinv := machine_inductive.reachable h
  have hanswers : (s.answers.map Answer.reqId).Nodup := by
    have hle : ((s.answers.map Answer.reqId : List Int) : Multiset Int) ≤ s.accepted := by
      rw [hinv.books.ledger, add_assoc, add_assoc]
      exact Multiset.le_add_right _ _
    exact Multiset.coe_nodup.mp
      (Multiset.nodup_of_le hle (Multiset.coe_nodup.mpr hinv.books.nodup))
  exact ⟨fun op hop => machine_inductive.progress h hop,
    ⟨hinv.books.nodup_keys, hinv.books.expiries, hinv.books.sorted⟩,
    ⟨hinv.armed.on_time_iff, timely_onTime⟩, ⟨hanswers, hinv.books.own⟩, destroy_iff hinv⟩

/-- The stream after one command with the given callback. -/
def afterCommand (opts : CommandOpts) (cb : Followup) : Except Fault Requests :=
  step {} (.command opts cb)

theorem reachable_afterCommand {opts : CommandOpts} {cb : Followup} {s : Requests}
    (h : afterCommand opts cb = .ok s) : machine.Reachable s :=
  .step (.initial rfl) (show machine.enabled {} (.command opts cb) from trivial) h

/-- A callback that issues one more command. -/
def retryOnce : Followup := .command {} .done .done

/-- The timer of a callback that retries once is on time. It is answered by the destructor, and so
is its retry. -/
theorem answered_once_retry :
    ∃ s t, afterCommand {} retryOnce = .ok s ∧ machine.Reachable s ∧
      (∃ front ∈ s.reqExpiries.head?, ∃ t ∈ s.timer, t.deadline ≤ front.1 + 999) ∧
      s.destroy = .ok t ∧ AllAnswered s t := by
  obtain ⟨s, hs⟩ : ∃ s, afterCommand {} retryOnce = .ok s := ⟨_, rfl⟩
  have hreach := reachable_afterCommand hs
  have htimely : timely.Reachable s :=
    .step (i := .command {} retryOnce) (.initial rfl) ⟨trivial, rfl⟩ hs
  have hfront : s.reqExpiries.head? = some (10000000000, 0) := by
    cases hs
    decide +kernel
  have hshallow : Shallow s := by
    cases hs
    exact .inr ⟨by decide, by decide⟩
  have hanswered := answered_once_iff hreach
  obtain ⟨t, ht, hall⟩ := hanswered.2.2.2.2.mpr hshallow
  exact ⟨s, t, hs, hreach, ⟨_, hfront, hanswered.2.2.1.2 htimely _ hfront⟩, ht, hall⟩

/-- A callback that retries with a callback that retries makes the destructor of the stream
insert into a map it is destroying. And a timeout that has already passed is armed for the
present, which is later than its expiry: that of a command with a negative timeout, and that of a
command from another thread whose job is run late. -/
theorem second_retry_faults :
    (∃ s, machine.Reachable s ∧ s.isClosing = false ∧
      s.destroy = .error .danglingIterator) ∧
    (∃ s, machine.Reachable s ∧ s.reqExpiries = [(-1000000, 0)] ∧ s.timer = some ⟨0, 0⟩) ∧
    ∃ s, machine.Reachable s ∧ s.reqExpiries = [(10000000000, 0)] ∧
      s.timer = some ⟨20000000000, 20000000000⟩ := by
  refine ⟨?_, ?_, ?_⟩
  · obtain ⟨s, hs⟩ : ∃ s, afterCommand {} (.command {} retryOnce .done) = .ok s := ⟨_, rfl⟩
    refine ⟨s, reachable_afterCommand hs, ?_⟩
    cases hs
    exact ⟨rfl, by decide +kernel⟩
  · obtain ⟨s, hs⟩ : ∃ s, afterCommand { timeout := some (-1) } .done = .ok s := ⟨_, rfl⟩
    refine ⟨s, reachable_afterCommand hs, ?_⟩
    cases hs
    exact ⟨by decide +kernel, by decide +kernel⟩
  · obtain ⟨s, hs⟩ : ∃ s, step { post {} {} .done with now := 20000000000 } .runJob = .ok s :=
      ⟨_, rfl⟩
    have hposted : machine.Reachable { post {} {} .done with now := 20000000000 } :=
      .step (i := .tick 20000000000)
        (.step (i := .post {} .done) (.initial rfl) trivial rfl) trivial rfl
    refine ⟨s, hposted.step (i := .runJob) (List.cons_ne_nil _ _) hs, ?_⟩
    cases hs
    exact ⟨by decide +kernel, by decide +kernel⟩

end Libquic.Requests
