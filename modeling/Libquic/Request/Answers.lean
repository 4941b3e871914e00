import Libquic.Request.LifecycleSpec

/-!
# Request streams: operations

Every operation keeps the books, so between operations the two tables list the same requests,
the timer is set for the first of them, and no callback has run twice.
-/
namespace Libquic.Requests

open Lib

/-! ## Answering a list of requests -/

theorem timeOut_spec {held : Multiset Int} {s : Requests} {r : SentRequest}
    (h : Books (r.reqId ::ₘ held) s) (hcan : CanReact r.cb s) :
    ∃ t, s.timeOut r = .ok t ∧ Books held t ∧ Reacted r.cb.submits s t := by
  obtain ⟨t, ht, hbooks, hreact⟩ := react_spec r.cb (h.answer (m := none) (by simp)) hcan
  exact ⟨t, ht, hbooks, (reacted_answer s r.reqId none).trans hreact⟩

theorem timeOutAll_spec {held : Multiset Int} {s : Requests} (rs : List SentRequest)
    (h : Books (rs.map SentRequest.reqId + held) s) (hcan : ∀ r ∈ rs, CanReact r.cb s) :
    ∃ t, rs.foldlM timeOut s = .ok t ∧ Books held t ∧
      Reacted (rs.flatMap fun r => r.cb.submits) s t := by
  induction rs generalizing s with
  | nil => exact ⟨s, rfl, by simpa using h, Reacted.refl s⟩
  | cons r rs ih =>
    rw [List.map_cons, ← Multiset.cons_coe, Multiset.cons_add] at h
    obtain ⟨t, ht, hbooks, hreact⟩ := timeOut_spec h (hcan r (by simp))
    obtain ⟨u, hu, hbooks', hreact'⟩ :=
      ih hbooks fun x hx => hreact.canReact_iff.mpr (hcan x (by simp [hx]))
    refine ⟨u, ?_, hbooks', ?_⟩
    · rw [List.foldlM_cons, ht]
      exact hu
    · rw [List.flatMap_cons]
      exact hreact.trans hreact'

/-! ## Taking requests out of the tables -/

theorem Books.takeOut {held : Multiset Int} {s : Requests} (h : Books held s)
    (gone rest : List (Int × Int)) (hsplit : s.reqExpiries.Perm (gone ++ rest))
    (hsorted : rest.Pairwise fun a b => a.1 ≤ b.1) :
    Books (gone.map Prod.snd + held)
      { s with
        sentReqs := s.sentReqs.filter fun e => !(gone.map Prod.snd).contains e.1
        reqExpiries := rest } := by
  let pair : Int × SentRequest → Int × Int := fun e => (e.2.expiry, e.1)
  let keep : Int × Int → Bool := fun p => !(gone.map Prod.snd).contains p.2
  have hpairs : (s.sentReqs.map pair).Perm (gone ++ rest) := h.expiries.symm.trans hsplit
  have hids : (s.sentReqs.map Prod.fst).Perm (gone.map Prod.snd ++ rest.map Prod.snd) := by
    simpa [pair, Function.comp_def] using hpairs.map Prod.snd
  have hnodup := hids.nodup_iff.mp h.nodup_keys
  have hgone : gone.filter keep = [] := by
    refine List.filter_eq_nil_iff.mpr fun p hp => ?_
    have : p.2 ∈ gone.map Prod.snd := List.mem_map.mpr ⟨p, hp, rfl⟩
    simpa [keep] using this
  have hrest : rest.filter keep = rest := by
    refine List.filter_eq_self.mpr fun p hp => ?_
    have hdisjoint := (List.nodup_append.mp hnodup).2.2
    have hnot : p.2 ∉ gone.map Prod.snd := fun hmem =>
      hdisjoint p.2 hmem p.2 (List.mem_map.mpr ⟨p, hp, rfl⟩) rfl
    simpa [keep] using hnot
  have hleft : ((s.sentReqs.filter (keep ∘ pair)).map pair).Perm rest := by
    rw [← List.filter_map]
    have hfilter := hpairs.filter keep
    rwa [List.filter_append, hgone, hrest, List.nil_append] at hfilter
  have hleftIds : ((s.sentReqs.filter (keep ∘ pair)).map Prod.fst).Perm (rest.map Prod.snd) := by
    simpa [pair, Function.comp_def] using hleft.map Prod.snd
  exact
    { h with
      ledger := by
        have hall : ((s.sentReqs.map Prod.fst : List Int) : Multiset Int) =
            (gone.map Prod.snd : List Int) +
              ((s.sentReqs.filter (keep ∘ pair)).map Prod.fst : List Int) := by
          rw [Multiset.coe_add]
          exact Multiset.coe_eq_coe.mpr (hids.trans (hleftIds.symm.append_left _))
        change (s.accepted : Multiset Int) = s.answers.map Answer.reqId +
          ((s.sentReqs.filter (keep ∘ pair)).map Prod.fst : List Int) +
            s.jobs.map SentRequest.reqId + (gone.map Prod.snd + held)
        rw [h.ledger, hall]
        abel
      keys := fun e he => h.keys e (List.mem_filter.mp he).1
      expiries := hleft.symm
      sorted := hsorted }

theorem Books.find_of_mem {held : Multiset Int} {s : Requests} (h : Books held s)
    {e : Int × SentRequest} (he : e ∈ s.sentReqs) : s.find e.1 = some e.2 := by
  have hnodup := h.nodup_keys
  unfold find
  generalize s.sentReqs = l at he hnodup
  induction l with
  | nil => simp at he
  | cons x l ih =>
    rw [List.map_cons, List.nodup_cons] at hnodup
    rcases List.mem_cons.mp he with rfl | he
    · simp
    · have hne : x.1 ≠ e.1 := fun heq => hnodup.1 (heq ▸ List.mem_map.mpr ⟨e, he, rfl⟩)
      rw [List.find?_cons_of_neg (by simpa using hne)]
      exact ih he hnodup.2

theorem mem_of_find {s : Requests} {id : Int} {r : SentRequest} (h : s.find id = some r) :
    (id, r) ∈ s.sentReqs := by
  obtain ⟨e, he, rfl⟩ := Option.map_eq_some_iff.mp h
  have hid : e.1 = id := by simpa using List.find?_some he
  rw [← hid]
  exact List.mem_of_find?_eq_some he

/-- Every entry of `req_expiries` leads to its request. -/
theorem Books.find_expiry {held : Multiset Int} {s : Requests} (h : Books held s)
    {entry : Int × Int} (hentry : entry ∈ s.reqExpiries) :
    ∃ r, s.find entry.2 = some r ∧ r.reqId = entry.2 := by
  obtain ⟨e, he, rfl⟩ := List.mem_map.mp (h.expiries.mem_iff.mp hentry)
  exact ⟨e.2, h.find_of_mem he, h.keys e he⟩

theorem Books.expired_ids {held : Multiset Int} {s : Requests} (h : Books held s)
    {due : List (Int × Int)} (hdue : ∀ entry ∈ due, entry ∈ s.reqExpiries) :
    (due.filterMap fun entry => s.find entry.2).map SentRequest.reqId = due.map Prod.snd := by
  induction due with
  | nil => rfl
  | cons entry due ih =>
    obtain ⟨r, hfind, hid⟩ := h.find_expiry (hdue entry (by simp))
    have hrest := ih fun x hx => hdue x (by simp [hx])
    simp only [List.filterMap_cons, hfind, List.map_cons, hid, hrest]

/-! ## The operations -/

theorem Books.expire {held : Multiset Int} {s : Requests} (h : Books held s) (now : Option Int) :
    Books (((s.reqExpiries.takeWhile (isExpired now)).filterMap fun entry => s.find entry.2).map
        SentRequest.reqId + held)
      { s with
        sentReqs := s.sentReqs.filter fun e =>
          !((s.reqExpiries.takeWhile (isExpired now)).map Prod.snd).contains e.1
        reqExpiries := s.reqExpiries.dropWhile (isExpired now) } := by
  have hsplit := List.takeWhile_append_dropWhile (p := isExpired now) (l := s.reqExpiries)
  rw [h.expired_ids fun _ he => (List.takeWhile_sublist (isExpired now)).subset he]
  exact h.takeOut _ _ (by rw [hsplit]) (h.sorted.sublist (List.dropWhile_sublist (isExpired now)))

theorem checkTimeouts_spec {held : Multiset Int} {s : Requests} (h : Books held s)
    (hcontainers : s.containers = true) (now : Option Int) :
    ∃ subs t, s.checkTimeouts now = .ok t ∧ Books held t ∧
      Reacted subs
        { s with
          sentReqs := s.sentReqs.filter fun e =>
            !((s.reqExpiries.takeWhile (isExpired now)).map Prod.snd).contains e.1
          reqExpiries := s.reqExpiries.dropWhile (isExpired now) } t := by
  obtain ⟨t, ht, hbooks, hreact⟩ := timeOutAll_spec _ (h.expire now) fun r _ => .inl hcontainers
  exact ⟨_, t, ht, hbooks, hreact⟩

theorem head?_erase {l : List (Int × Int)} {entry : Int × Int} (h : l.head? ≠ some entry) :
    (l.erase entry).head? = l.head? := by
  cases l with
  | nil => rfl
  | cons first rest =>
    have hne : first ≠ entry := fun heq => h (by rw [heq]; rfl)
    rw [List.erase_cons_tail (by simpa using hne)]
    rfl

/-- What holds between operations. -/
structure Inv (s : Requests) : Prop where
  books : Books 0 s
  armed : Armed s
  containers : s.containers = true

/-- A reply takes its request out of both tables. -/
theorem Books.takeReply {s : Requests} {m : Message} {r : SentRequest} (h : Books 0 s)
    (hfind : s.find m.reqId.toInt = some r) :
    r.reqId = m.reqId.toInt ∧ Books (r.reqId ::ₘ 0)
      { s with
        sentReqs := s.sentReqs.filter (·.1 ≠ m.reqId.toInt)
        reqExpiries := s.reqExpiries.erase (r.expiry, r.reqId) } := by
  have hmem := mem_of_find hfind
  have hid : r.reqId = m.reqId.toInt := h.keys _ hmem
  have hentry : (r.expiry, r.reqId) ∈ s.reqExpiries := by
    rw [hid]
    exact h.expiries.mem_iff.mpr (List.mem_map.mpr ⟨_, hmem, rfl⟩)
  have hout := h.takeOut [(r.expiry, r.reqId)] _ (List.perm_cons_erase hentry)
    (h.sorted.sublist List.erase_sublist)
  have hfilter : (fun e : Int × SentRequest =>
      !([(r.expiry, r.reqId)].map Prod.snd).contains e.1) =
      fun e => decide (e.1 ≠ m.reqId.toInt) := by
    funext e
    simp [hid]
  rw [hfilter] at hout
  exact ⟨hid, by simpa using hout⟩

theorem Inv.handleReply {s : Requests} (h : Inv s) (m : Message) :
    ∃ t, s.handleReply m = .ok t ∧ Inv t := by
  unfold Requests.handleReply
  cases hfind : s.find m.reqId.toInt with
  | none => exact ⟨s, rfl, h⟩
  | some r =>
    obtain ⟨hid, hout⟩ := h.books.takeReply hfind
    have hdeliver : ∀ u : Requests, Books (r.reqId ::ₘ 0) u → Armed u → u.containers = true →
        ∃ t, u.deliver r m = .ok t ∧ Inv t := by
      intro u hu harmed hcontainers
      obtain ⟨t, ht, hbooks, hreact⟩ :=
        react_spec r.cb (hu.answer (m := some m) (by simp [hid])) (.inl hcontainers)
      exact ⟨t, ht, hbooks, hreact.armed ((reacted_answer u r.reqId (some m)).armed harmed),
        hreact.containers.trans hcontainers⟩
    simp only
    split_ifs with hfront
    · refine hdeliver _ hout.updateTimeout (armed_updateTimeout _) ?_
      obtain ⟨timer, heq⟩ := updateTimeout_eq { s with
        sentReqs := s.sentReqs.filter (·.1 ≠ m.reqId.toInt)
        reqExpiries := s.reqExpiries.erase (r.expiry, r.reqId) }
      rw [heq]
      exact h.containers
    · -- the front stays, and with it the timer
      exact hdeliver _ hout (fun front hmem => h.armed front (head?_erase hfront ▸ hmem))
        h.containers

theorem Inv.timerFired {s : Requests} (h : Inv s) : ∃ t, s.timerFired = .ok t ∧ Inv t := by
  obtain ⟨subs, t, ht, hbooks, hreact⟩ :=
    checkTimeouts_spec (h.books.setTimer none) h.containers (some s.now)
  refine ⟨t.updateTimeout, ?_, hbooks.updateTimeout, armed_updateTimeout t, ?_⟩
  · rw [Requests.timerFired, ht]
    rfl
  · obtain ⟨timer, heq⟩ := updateTimeout_eq t
    rw [heq]
    exact hreact.containers.trans h.containers

theorem dropWhile_isExpired_none (l : List (Int × Int)) : l.dropWhile (isExpired none) = [] := by
  induction l with
  | nil => rfl
  | cons e l ih => simp [List.dropWhile_cons, isExpired, ih]

theorem Inv.closed {s : Requests} (h : Inv s) : ∃ t, s.closed = .ok t ∧ Inv t := by
  have hbooks : Books 0 { s with isClosing := true, timer := none } := { h.books with }
  obtain ⟨subs, t, ht, hbooks', hreact⟩ := checkTimeouts_spec hbooks h.containers none
  refine ⟨t, ht, hbooks', hreact.armed ?_, hreact.containers.trans h.containers⟩
  intro front hmem
  simp [dropWhile_isExpired_none] at hmem

theorem Inv.command {s : Requests} (h : Inv s) (opts : CommandOpts) (cb : Followup) :
    ∃ t, Requests.command (react cb) s opts cb = .ok t ∧ Inv t := by
  obtain ⟨t, ht, hbooks, hreact⟩ :=
    command_spec (fun hb hclosing => react_spec cb hb (.inr (.inl hclosing))) h.books
      (.inl h.containers)
  exact ⟨t, ht, hbooks, hreact.armed h.armed, hreact.containers.trans h.containers⟩

theorem Inv.post {s : Requests} (h : Inv s) (opts : CommandOpts) (cb : Followup) :
    Inv (s.post opts cb) := by
  unfold Requests.post
  split_ifs
  · have haccept := h.books.accept opts
    have hbegin := reacted_begin s opts [s.nextRid]
    refine ⟨{ haccept with ledger := ?_ }, hbegin.armed h.armed, h.containers⟩
    have hledger := haccept.ledger
    simp only [Requests.begin, makeRequest, List.map_append, List.map_cons, List.map_nil] at hledger ⊢
    rw [hledger, ← Multiset.coe_add, Multiset.coe_singleton, ← Multiset.singleton_add]
    abel
  · have hbegin := reacted_begin s opts []
    rw [List.append_nil] at hbegin
    exact ⟨h.books.begin opts, hbegin.armed h.armed, h.containers⟩

/-- The request of a job that is run. -/
theorem Books.takeJob {s : Requests} {r : SentRequest} {jobs : List SentRequest} (h : Books 0 s)
    (hjobs : s.jobs = r :: jobs) : Books (r.reqId ::ₘ 0) { s with jobs := jobs } :=
  { h with
    ledger := by
      have hledger := h.ledger
      rw [hjobs, List.map_cons, ← Multiset.cons_coe, ← Multiset.singleton_add] at hledger
      rw [← Multiset.singleton_add]
      simp only
      rw [hledger]
      abel }

theorem Inv.runJob {s : Requests} (h : Inv s) : ∃ t, s.runJob = .ok t ∧ Inv t := by
  unfold Requests.runJob
  cases hjobs : s.jobs with
  | nil => exact ⟨s, rfl, h⟩
  | cons r jobs =>
    have hheld := h.books.takeJob hjobs
    have harmed : Armed { s with jobs := jobs } := h.armed
    by_cases hclosing : s.isClosing = true
    · obtain ⟨t, ht, hbooks, hreact⟩ := timeOut_spec hheld (.inl h.containers)
      exact ⟨t, (if_pos hclosing).trans ht, hbooks, hreact.armed harmed,
        hreact.containers.trans h.containers⟩
    · obtain ⟨t, ht, hbooks, hreact⟩ :=
        addSentRequest_spec hheld h.containers (by simpa using hclosing)
      exact ⟨t, (if_neg hclosing).trans ht, hbooks, hreact.armed harmed,
        hreact.containers.trans h.containers⟩

theorem machine_inductive : machine.Inductive Inv where
  initial := by
    rintro s rfl
    exact ⟨⟨rfl, List.nodup_nil, by simp, by simp, .refl _, .nil, by simp⟩, by simp [Armed], rfl⟩
  step := by
    intro s op h _
    cases op with
    | tick elapsed =>
      refine ⟨_, rfl, { h.books with }, ?_, h.containers⟩
      intro front hmem
      obtain ⟨t, ht, hat, hdeadline⟩ := h.armed front hmem
      exact ⟨t, ht, hat.trans (by simp), hdeadline⟩
    | command opts cb => exact h.command opts cb
    | post opts cb => exact ⟨_, rfl, h.post opts cb⟩
    | runJob => exact h.runJob
    | reply m => exact h.handleReply m
    | timerFired => exact h.timerFired
    | close => exact ⟨_, rfl, { h.books with }, h.armed, h.containers⟩
    | closed => exact h.closed

end Libquic.Requests
