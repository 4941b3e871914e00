import Mathlib.Data.List.TakeWhile
import Libquic.Request.Answers

/-!
# Request streams: a timer that is not late

`update_timeout` does not set the timer for a time that has passed: the timer is late for a request
that has expired by then. It is on time in runs without negative timeouts, where jobs and replies
do not come too late, and where callbacks that the timer runs take no time.
-/
namespace Libquic

open Lib

/-- No command in it has a negative timeout. -/
def Followup.patient : Followup → Bool
  | .done => true
  | .command opts inner next =>
    decide (0 ≤ opts.timeout.getD defaultTimeout) && inner.patient && next.patient

/-- It takes no time. -/
def Followup.instant : Followup → Bool
  | .done => true
  | .command opts inner next => opts.elapsed == 0 && inner.instant && next.instant

namespace Requests

variable {s t : Requests} {r : SentRequest} {f : Followup} {opts : CommandOpts}

/-- No request has expired when the timer may be set: not that of a command or of a job when it is
submitted, and none that waits when a reply comes or at the end of the timer's own event. -/
def Timely (s : Requests) : Op → Prop
  | .command opts cb => (Followup.command opts cb .done).patient = true
  | .post opts cb => (Followup.command opts cb .done).patient = true
  | .runJob => ∀ r ∈ s.jobs.head?, s.now ≤ r.expiry
  | .reply _ => ∀ entry ∈ s.reqExpiries, s.now ≤ entry.1
  | .timerFired => ∀ entry ∈ s.reqExpiries, entry.1 ≤ s.now →
    ∀ r ∈ s.find entry.2, r.cb.instant = true
  | _ => True

def timely : Machine Requests Op Fault where
  initial s := s = {}
  enabled s op := s.enabled op ∧ s.Timely op
  step := step

/-- The timer is set for no later than the earliest expiry, rounded up to a microsecond. -/
def OnTime (s : Requests) : Prop :=
  ∀ front ∈ s.reqExpiries.head?, ∃ t ∈ s.timer, t.deadline ≤ front.1 + 999

/-- No callback that waits issues commands with negative timeouts. -/
structure Patient (s : Requests) : Prop where
  sent : ∀ e ∈ s.sentReqs, e.2.cb.patient = true
  jobs : ∀ r ∈ s.jobs, r.cb.patient = true

/-- No request has expired. -/
def Ahead (s : Requests) : Prop := ∀ entry ∈ s.reqExpiries, s.now ≤ entry.1

/-- The timer is late exactly if the request had expired when it was set. -/
theorem Armed.on_time_iff (h : Armed s) : ∀ front ∈ s.reqExpiries.head?, ∃ t ∈ s.timer,
    t.armedAt ≤ s.now ∧ t.deadline ≤ max t.armedAt (front.1 + 999) ∧
      (t.deadline ≤ front.1 + 999 ↔ t.armedAt ≤ front.1 + 999) := by
  intro front hfront
  obtain ⟨t, ht, hnow, harmed, hdeadline⟩ := h front hfront
  exact ⟨t, ht, hnow, hdeadline, by omega⟩

theorem onTime_updateTimeout (h : ∀ front ∈ s.reqExpiries.head?, s.now ≤ front.1) :
    OnTime s.updateTimeout := by
  unfold updateTimeout
  cases hexp : s.reqExpiries with
  | nil => simp [OnTime]
  | cons first rest =>
    intro front hmem
    obtain rfl : first = front := by simpa [hexp] using hmem
    have hnow := h first (by simp [hexp])
    have hceil := ceilMicroseconds_le (first.1 - s.now)
    refine ⟨_, rfl, ?_⟩
    dsimp only
    omega

theorem Patient.updateTimeout (h : Patient s) : Patient s.updateTimeout := by
  obtain ⟨timer, heq⟩ := updateTimeout_eq s
  rw [heq]
  exact ⟨h.sent, h.jobs⟩

/-! ## Callbacks -/

theorem mem_insertExpiry {expiry id : Int} {l : List (Int × Int)} {entry : Int × Int} :
    entry ∈ insertExpiry expiry id l ↔ entry = (expiry, id) ∨ entry ∈ l := by
  rw [(insertExpiry_perm expiry id l).mem_iff, List.mem_cons]

theorem Books.not_mem_expiries {held : Multiset Int} {id : Int} (h : Books (id ::ₘ held) s) :
    ∀ entry ∈ s.reqExpiries, entry.2 ≠ id := by
  intro entry hentry
  obtain ⟨e, he, rfl⟩ := List.mem_map.mp (h.expiries.mem_iff.mp hentry)
  exact h.not_mem_keys e he

/-- What is kept from `s` to `t`, and what else is if no time passes. -/
structure Paced (instant : Prop) (s t : Requests) : Prop where
  onTime : OnTime s → OnTime t
  patient : Patient s → Patient t
  ahead : instant → Ahead s → Ahead t
  now : instant → t.now = s.now

theorem Paced.refl (instant : Prop) (s : Requests) : Paced instant s s :=
  ⟨id, id, fun _ h => h, fun _ => rfl⟩

theorem Paced.trans {a b : Prop} {u : Requests} (hst : Paced a s t) (htu : Paced b t u) :
    Paced (a ∧ b) s u :=
  ⟨htu.onTime ∘ hst.onTime, htu.patient ∘ hst.patient,
    fun h hs => htu.ahead h.2 (hst.ahead h.1 hs), fun h => (htu.now h.2).trans (hst.now h.1)⟩

theorem Paced.imp {a b : Prop} (h : Paced a s t) (hab : b → a) : Paced b s t :=
  ⟨h.onTime, h.patient, fun hb => h.ahead (hab hb), fun hb => h.now (hab hb)⟩

theorem paced_begin (s : Requests) (opts : CommandOpts) (ids : List Int) :
    Paced (opts.elapsed = 0) s { s.begin opts with accepted := s.accepted ++ ids } where
  onTime h := h
  patient h := ⟨h.sent, h.jobs⟩
  ahead hzero h entry hentry := by
    have hnow := h entry hentry
    simp only [Requests.begin, hzero]
    omega
  now hzero := by simp [Requests.begin, hzero]

theorem paced_answer (s : Requests) (id : Int) (m : Option Message) :
    Paced True s (s.answer id m) :=
  ⟨fun h => h, fun h => ⟨h.sent, h.jobs⟩, fun _ h => h, fun _ => rfl⟩

theorem paced_addSentRequest {held : Multiset Int} (h : Books (r.reqId ::ₘ held) s)
    (hexpiry : s.now ≤ r.expiry) (hcb : r.cb.patient = true) (ht : s.addSentRequest r = .ok t) :
    Paced True s t := by
  let u : Requests := { s with
    sentReqs := OrderedMap.insert r.reqId r s.sentReqs
    reqExpiries := insertExpiry r.expiry r.reqId s.reqExpiries }
  have hpatient (hs : Patient s) : Patient u := by
    refine ⟨fun e he => ?_, hs.jobs⟩
    rcases OrderedMap.mem_of_mem_insert he with rfl | he
    · exact hcb
    · exact hs.sent e he
  have hahead (hs : Ahead s) : Ahead u := by
    intro entry hentry
    rcases mem_insertExpiry.mp hentry with rfl | hentry
    · exact hexpiry
    · exact hs entry hentry
  unfold Requests.addSentRequest at ht
  split_ifs at ht
  by_cases hfront : u.reqExpiries.head?.map Prod.snd = some r.reqId
  · -- the new request has come to the front
    obtain rfl : u.updateTimeout = t := Except.ok.inj ((congrArg _ (if_pos hfront).symm).trans ht)
    obtain ⟨timer, heq⟩ := updateTimeout_eq u
    refine ⟨fun _ => onTime_updateTimeout fun front hmem => ?_,
      fun hs => (hpatient hs).updateTimeout, by rw [heq]; exact fun _ => hahead,
      by rw [heq]; exact fun _ => rfl⟩
    rw [Option.mem_def.mp hmem] at hfront
    rcases mem_insertExpiry.mp (List.mem_of_mem_head? hmem) with rfl | hold
    · exact hexpiry
    · exact absurd (Option.some.inj hfront) (h.not_mem_expiries front hold)
  · obtain rfl : u = t := Except.ok.inj ((congrArg _ (if_neg hfront).symm).trans ht)
    exact ⟨fun hs front hmem => hs front (head?_insertExpiry hfront ▸ hmem), hpatient,
      fun _ => hahead, fun _ => rfl⟩

theorem paced_command {held : Multiset Int} {inner : Followup} (h : Books held s)
    (htimeout : 0 ≤ opts.timeout.getD defaultTimeout) (hpatient : inner.patient = true)
    (hinner : ∀ {held : Multiset Int} {s t : Requests}, Books held s → s.isClosing = true →
      react inner s = .ok t → Paced (inner.instant = true) s t)
    (ht : command (react inner) s opts inner = .ok t) :
    Paced (opts.elapsed = 0 ∧ inner.instant = true) s t := by
  unfold Requests.command at ht
  split_ifs at ht with hsub
  · have haccept := h.accept opts
    have hbegin := paced_begin s opts [s.nextRid]
    dsimp only at ht
    unfold submit at ht
    split_ifs at ht with hclosing
    · have hanswer : Books held (Requests.answer
          { s.begin opts with accepted := s.accepted ++ [s.nextRid] } s.nextRid none) :=
        haccept.answer (by simp)
      refine (hbegin.trans ((paced_answer _ s.nextRid none).trans
        (hinner hanswer hclosing ht))).imp fun hinstant => ⟨hinstant.1, trivial, hinstant.2⟩
    · have hexpiry : (s.begin opts).now ≤ (s.makeRequest opts inner).expiry := by
        simp only [Requests.begin, makeRequest]
        omega
      refine (hbegin.trans (paced_addSentRequest haccept hexpiry hpatient ht)).imp
        fun hinstant => ⟨hinstant.1, trivial⟩
  · cases ht
    have hbegin := paced_begin s opts []
    rw [List.append_nil] at hbegin
    exact hbegin.imp And.left

/-- Whatever a callback without negative timeouts does. -/
theorem paced_react {held : Multiset Int} (h : Books held s) (hcan : CanReact f s)
    (hpatient : f.patient = true) (ht : react f s = .ok t) : Paced (f.instant = true) s t := by
  induction f generalizing held s t with
  | done =>
    cases ht
    exact .refl _ _
  | command opts inner next ihInner ihNext =>
    simp only [Followup.patient, Bool.and_eq_true, decide_eq_true_eq] at hpatient
    obtain ⟨⟨htimeout, hinner⟩, hnext⟩ := hpatient
    obtain ⟨u, hu, ht⟩ := bind_ok ht
    obtain ⟨u', hu', hbooks, hreact⟩ := command_spec
      (fun hb hclosing => react_spec inner hb (.inr (.inl hclosing))) h
      (hcan.imp_right (Or.imp_right fun hnil => (submits_command_eq_nil hnil).1))
    obtain rfl : u' = u := Except.ok.inj (hu'.symm.trans hu)
    have hcanNext : CanReact next u' := by
      apply hreact.canReact_iff.mpr
      exact hcan.imp_right (Or.imp_right fun hnil => (submits_command_eq_nil hnil).2)
    have hcommand := paced_command h htimeout hinner
      (fun hb hclosing ht => ihInner hb (.inr (.inl hclosing)) hinner ht) hu
    refine (hcommand.trans (ihNext hbooks hcanNext hnext ht)).imp fun hinstant => ?_
    simpa [Followup.instant] using hinstant

/-! ## Operations -/

theorem paced_timeOutAll {held : Multiset Int} {rs : List SentRequest}
    (h : Books (rs.map SentRequest.reqId + held) s) (hcontainers : s.containers = true)
    (hpatient : ∀ r ∈ rs, r.cb.patient = true) (ht : rs.foldlM timeOut s = .ok t) :
    Paced (∀ r ∈ rs, r.cb.instant = true) s t := by
  induction rs generalizing s with
  | nil =>
    cases ht
    exact .refl _ _
  | cons r rs ih =>
    rw [List.foldlM_cons] at ht
    obtain ⟨u, hu, ht⟩ := bind_ok ht
    rw [List.map_cons, ← Multiset.cons_coe, Multiset.cons_add] at h
    obtain ⟨u', hu', hbooks, hreact⟩ := timeOut_spec h (.inl hcontainers)
    obtain rfl : u' = u := Except.ok.inj (hu'.symm.trans hu)
    have hfirst := (paced_answer s r.reqId none).trans
      (paced_react (h.answer (m := none) (by simp)) (.inl hcontainers) (hpatient r (by simp)) hu)
    have hrest := ih hbooks (hreact.containers.trans hcontainers)
      (fun x hx => hpatient x (by simp [hx])) ht
    exact (hfirst.trans hrest).imp fun hall =>
      ⟨⟨trivial, hall r (by simp)⟩, fun x hx => hall x (by simp [hx])⟩

theorem paced_checkTimeouts {held : Multiset Int} (h : Books held s)
    (hcontainers : s.containers = true) (hpatient : Patient s) {now : Option Int}
    (ht : s.checkTimeouts now = .ok t) :
    Paced (∀ entry ∈ s.reqExpiries, isExpired now entry = true →
        ∀ r ∈ s.find entry.2, r.cb.instant = true)
      { s with
        sentReqs := s.sentReqs.filter fun e =>
          !((s.reqExpiries.takeWhile (isExpired now)).map Prod.snd).contains e.1
        reqExpiries := s.reqExpiries.dropWhile (isExpired now) } t := by
  have hfound (r : SentRequest) (hr : r ∈ (s.reqExpiries.takeWhile (isExpired now)).filterMap
      fun entry => s.find entry.2) :
      ∃ entry ∈ s.reqExpiries, isExpired now entry = true ∧ s.find entry.2 = some r := by
    obtain ⟨entry, hentry, hfind⟩ := List.mem_filterMap.mp hr
    exact ⟨entry, (List.takeWhile_sublist _).subset hentry, List.mem_takeWhile_imp hentry, hfind⟩
  refine (paced_timeOutAll (h.expire now) hcontainers (fun r hr => ?_) ht).imp fun hall r hr => ?_
  · obtain ⟨entry, -, -, hfind⟩ := hfound r hr
    exact hpatient.sent _ (mem_of_find hfind)
  · obtain ⟨entry, hentry, hexpired, hfind⟩ := hfound r hr
    exact hall entry hentry hexpired r hfind

theorem Patient.filter (h : Patient s) {p : Int × SentRequest → Bool}
    (hsent : t.sentReqs = s.sentReqs.filter p) (hjobs : t.jobs = s.jobs) : Patient t :=
  ⟨fun e he => h.sent e (List.mem_filter.mp (hsent ▸ he)).1, hjobs ▸ h.jobs⟩

theorem deliver_onTime {m : Message} (h : Books (r.reqId ::ₘ 0) s)
    (hcontainers : s.containers = true) (hid : r.reqId = m.reqId.toInt)
    (hcb : r.cb.patient = true) (hs : OnTime s) (hpatient : Patient s)
    (ht : s.deliver r m = .ok t) : OnTime t ∧ Patient t := by
  have hpaced := (paced_answer s r.reqId (some m)).trans
    (paced_react (h.answer (m := some m) (by simp [hid])) (.inl hcontainers) hcb ht)
  exact ⟨hpaced.onTime hs, hpaced.patient hpatient⟩

theorem handleReply_onTime {m : Message} (h : Inv s) (hs : OnTime s) (hpatient : Patient s)
    (hahead : Ahead s) (ht : s.handleReply m = .ok t) : OnTime t ∧ Patient t := by
  unfold Requests.handleReply at ht
  cases hfind : s.find m.reqId.toInt with
  | none =>
    rw [hfind] at ht
    cases ht
    exact ⟨hs, hpatient⟩
  | some r =>
    rw [hfind] at ht
    dsimp only at ht
    obtain ⟨hid, hbooks⟩ := h.books.takeReply hfind
    have hcb : r.cb.patient = true := hpatient.sent _ (mem_of_find hfind)
    have hkept : Patient { s with
        sentReqs := s.sentReqs.filter (·.1 ≠ m.reqId.toInt)
        reqExpiries := s.reqExpiries.erase (r.expiry, r.reqId) } := hpatient.filter rfl rfl
    split_ifs at ht with hfront
    · -- the timer is set again, for a request that has not expired
      obtain ⟨timer, heq⟩ := updateTimeout_eq { s with
        sentReqs := s.sentReqs.filter (·.1 ≠ m.reqId.toInt)
        reqExpiries := s.reqExpiries.erase (r.expiry, r.reqId) }
      refine deliver_onTime hbooks.updateTimeout (by rw [heq]; exact h.containers) hid hcb
        (onTime_updateTimeout fun front hmem => ?_) hkept.updateTimeout ht
      exact hahead front (List.mem_of_mem_erase (List.mem_of_mem_head? hmem))
    · exact deliver_onTime hbooks h.containers hid hcb
        (fun front hmem => hs front (head?_erase hfront ▸ hmem)) hkept ht

/-- What `check_timeouts` leaves in a sorted table has not expired. -/
theorem lt_of_mem_dropWhile {now : Int} {l : List (Int × Int)}
    (h : l.Pairwise fun a b => a.1 ≤ b.1) :
    ∀ entry ∈ l.dropWhile (isExpired (some now)), now < entry.1 := by
  induction l with
  | nil => simp
  | cons first rest ih =>
    obtain ⟨hfirst, hrest⟩ := List.pairwise_cons.mp h
    rw [List.dropWhile_cons]
    split_ifs with hexpired
    · exact ih hrest
    · have hlt : now < first.1 := by simpa [isExpired] using hexpired
      intro entry hentry
      rcases List.mem_cons.mp hentry with rfl | hentry
      · exact hlt
      · exact hlt.trans_le (hfirst entry hentry)

theorem timerFired_onTime (h : Inv s) (hpatient : Patient s)
    (hinstant : ∀ entry ∈ s.reqExpiries, entry.1 ≤ s.now →
      ∀ r ∈ s.find entry.2, r.cb.instant = true)
    (ht : s.timerFired = .ok t) : OnTime t ∧ Patient t := by
  obtain ⟨u, hu, ht⟩ := bind_ok ht
  cases ht
  have hpaced := paced_checkTimeouts (h.books.setTimer none) h.containers
    ⟨hpatient.sent, hpatient.jobs⟩ hu
  have hpatient' : Patient u := hpaced.patient (hpatient.filter rfl rfl)
  refine ⟨onTime_updateTimeout fun front hmem => ?_, hpatient'.updateTimeout⟩
  -- what is left after the timer's event has not expired
  refine hpaced.ahead (fun entry hentry hexpired => ?_) (fun entry hentry => ?_) front
    (List.mem_of_mem_head? hmem)
  · exact hinstant entry hentry (by simpa [isExpired] using hexpired)
  · exact (lt_of_mem_dropWhile h.books.sorted entry hentry).le

theorem closed_onTime (h : Inv s) (hpatient : Patient s) (ht : s.closed = .ok t) :
    OnTime t ∧ Patient t := by
  have hbooks : Books 0 { s with isClosing := true, timer := none } := { h.books with }
  have hpaced := paced_checkTimeouts hbooks h.containers ⟨hpatient.sent, hpatient.jobs⟩ ht
  refine ⟨hpaced.onTime ?_, hpaced.patient (hpatient.filter rfl rfl)⟩
  intro front hmem
  simp [dropWhile_isExpired_none] at hmem

theorem runJob_onTime (h : Inv s) (hs : OnTime s) (hpatient : Patient s)
    (htime : ∀ r ∈ s.jobs.head?, s.now ≤ r.expiry) (ht : s.runJob = .ok t) :
    OnTime t ∧ Patient t := by
  unfold Requests.runJob at ht
  cases hjobs : s.jobs with
  | nil =>
    rw [hjobs] at ht
    cases ht
    exact ⟨hs, hpatient⟩
  | cons r jobs =>
    rw [hjobs] at ht
    have hheld := h.books.takeJob hjobs
    have hcb : r.cb.patient = true := hpatient.jobs r (by simp [hjobs])
    have hrest : Patient { s with jobs := jobs } :=
      ⟨hpatient.sent, fun x hx => hpatient.jobs x (by simp [hjobs, hx])⟩
    dsimp only [submit] at ht
    split_ifs at ht
    · have hpaced := (paced_answer { s with jobs := jobs } r.reqId none).trans
        (paced_react (hheld.answer (m := none) (by simp)) (.inl h.containers) hcb ht)
      exact ⟨hpaced.onTime hs, hpaced.patient hrest⟩
    · have hexpiry : s.now ≤ r.expiry := htime r (by simp [hjobs])
      have hpaced := paced_addSentRequest hheld hexpiry hcb ht
      exact ⟨hpaced.onTime hs, hpaced.patient hrest⟩

theorem patient_of_command {cb : Followup} (h : (Followup.command opts cb .done).patient = true) :
    0 ≤ opts.timeout.getD defaultTimeout ∧ cb.patient = true := by
  simpa [Followup.patient] using h

theorem post_onTime {cb : Followup} (hs : OnTime s) (hpatient : Patient s)
    (hcb : cb.patient = true) : OnTime (s.post opts cb) ∧ Patient (s.post opts cb) := by
  unfold post
  split_ifs
  · refine ⟨hs, hpatient.sent, fun r hr => ?_⟩
    rcases List.mem_append.mp hr with hr | hr
    · exact hpatient.jobs r hr
    · exact List.mem_singleton.mp hr ▸ hcb
  · exact ⟨hs, hpatient.sent, hpatient.jobs⟩

theorem step_onTime {op : Op} (h : Inv s) (hs : OnTime s) (hpatient : Patient s)
    (htime : s.Timely op) (ht : s.step op = .ok t) : OnTime t ∧ Patient t := by
  cases op with
  | tick elapsed =>
    cases ht
    exact ⟨hs, hpatient.sent, hpatient.jobs⟩
  | command opts cb =>
    obtain ⟨htimeout, hcb⟩ := patient_of_command htime
    have hpaced := paced_command h.books htimeout hcb
      (fun hb hclosing ht => paced_react hb (.inr (.inl hclosing)) hcb ht) ht
    exact ⟨hpaced.onTime hs, hpaced.patient hpatient⟩
  | post opts cb =>
    cases ht
    exact post_onTime hs hpatient (patient_of_command htime).2
  | runJob => exact runJob_onTime h hs hpatient htime ht
  | reply m => exact handleReply_onTime h hs hpatient htime ht
  | timerFired => exact timerFired_onTime h hpatient htime ht
  | close =>
    cases ht
    exact ⟨hs, hpatient.sent, hpatient.jobs⟩
  | closed => exact closed_onTime h hpatient ht

/-- In a timely run the timer is never late. -/
theorem timely_onTime (h : timely.Reachable s) : OnTime s := by
  suffices hall : Inv s ∧ OnTime s ∧ Patient s from hall.2.1
  refine h.keep (P := fun s => Inv s ∧ OnTime s ∧ Patient s) ?_ ?_
  · rintro s rfl
    exact ⟨machine_inductive.initial _ rfl, by simp [OnTime], by simp, by simp⟩
  · rintro s op t ⟨hinv, hs, hpatient⟩ ⟨henabled, htime⟩ ht
    obtain ⟨t', ht', hinv'⟩ := machine_inductive.step s op hinv henabled
    obtain rfl : t' = t := Except.ok.inj (ht'.symm.trans ht)
    exact ⟨hinv', step_onTime hinv hs hpatient htime ht⟩

end Requests

end Libquic
