import Libquic.Endpoint.Tables

/-!
# Attempts to make a connection

Both tables are filled before a connection is made, which can fail. `_connect` takes its entries
back; `accept_initial_connection` leaves them, and as no other function removes a key of `conns`
that has no connection, the null pointer stays for good.
-/
namespace Libquic

open Lib PartialMap

variable {κ τ : Type}

namespace Tables

variable {s t : Tables κ τ} {rid : Nat} {c c' : TableConn κ τ}

theorem live_iff_getConn : s.Live rid c ↔ s.getConn rid = some c :=
  (Option.join_eq_some_iff).symm

/-- No key of `conns` is without a connection, and every id is one of a connection that is there. -/
structure Sound (s : Tables κ τ) : Prop where
  nonnull : ∀ rid, s.conns rid ≠ some none
  named : ∀ cid rid, s.connLookup cid = some rid → ∃ c, s.Live rid c

/-- Reference ids are new, and an id is one that its connection keeps, unless there is none. -/
structure Inv (s : Tables κ τ) : Prop where
  fresh : ∀ rid, s.nextRid < rid → s.conns rid = none
  named : ∀ cid rid, s.connLookup cid = some rid →
    (∃ c, s.Live rid c ∧ cid ∈ c.associatedCids) ∨ s.conns rid = some none

/-- A connection changes its sets, and `conn_lookup` gains at most ids that it keeps. -/
structure Rekeys (rid : Nat) (c' : TableConn κ τ) (s t : Tables κ τ) : Prop where
  conns : ∀ r, t.conns r = if r = rid then some (some c') else s.conns r
  lookup : ∀ cid r, t.connLookup cid = some r →
    s.connLookup cid = some r ∧ r ≠ rid ∨ r = rid ∧ cid ∈ c'.associatedCids
  nextRid : t.nextRid = s.nextRid

theorem Inv.rekey (h : Inv s) (hlive : s.Live rid c) (ht : Rekeys rid c' s t) : Inv t := by
  have hconns := ht.conns
  have hnext := ht.nextRid
  have hfresh := h.fresh
  unfold Live at hlive
  constructor
  · grind
  · intro cid r hr
    have hnamed := h.named cid r
    have hlookup := ht.lookup cid r hr
    unfold Live at hnamed ⊢
    grind

/-- What an id is looked up as is kept by the connection. -/
theorem Inv.mem_cids (h : Inv s) (hlive : s.Live rid c) (cid : κ)
    (hcid : s.connLookup cid = some rid) : cid ∈ c.associatedCids := by
  have hnamed := h.named cid rid hcid
  unfold Live at hlive hnamed
  grind

section Cids

variable [DecidableEq κ]

theorem associateCid_of_none {cid : κ} {weakly : Bool} (h : s.connLookup cid = none) :
    s.associateCid cid rid c weakly =
      { s with connLookup := assign s.connLookup cid rid }.setConn rid
        { c with associatedCids := c.associatedCids.insert cid } := by
  simp [associateCid, emplace, h]

theorem associateCid_of_some {cid : κ} {weakly : Bool} {old : Nat}
    (h : s.connLookup cid = some old) :
    s.associateCid cid rid c weakly = if weakly then s else
      s.setConn rid { c with associatedCids := c.associatedCids.insert cid } := by
  cases weakly <;> simp [associateCid, emplace, h]

theorem rekeys_associateCid (h : Inv s) (hlive : s.Live rid c) (cid : κ) (weakly : Bool) :
    s.associateCid cid rid c weakly = s ∨
      Rekeys rid { c with associatedCids := c.associatedCids.insert cid } s
        (s.associateCid cid rid c weakly) := by
  have hmem := h.mem_cids hlive
  cases hcid : s.connLookup cid with
  | none =>
    rw [associateCid_of_none hcid]
    right
    unfold setConn
    constructor <;> grind
  | some old =>
    rw [associateCid_of_some hcid]
    cases weakly with
    | true => exact .inl rfl
    | false =>
      right
      unfold setConn
      constructor <;> grind

theorem rekeys_dissociateCid (h : Inv s) (hlive : s.Live rid c) (cid : κ) :
    Rekeys rid { c with associatedCids := c.associatedCids.filter (· ≠ cid) } s
      (s.dissociateCid cid rid c) := by
  have hmem := h.mem_cids hlive
  unfold dissociateCid setConn
  constructor <;> grind

end Cids

section Resets

variable [DecidableEq τ]

theorem rekeys_associateReset (h : Inv s) (hlive : s.Live rid c) (htok : τ) :
    Rekeys rid { c with associatedResets := c.associatedResets.insert htok } s
      (s.associateReset htok rid c) := by
  have hmem := h.mem_cids hlive
  unfold associateReset setConn
  constructor <;> grind

theorem rekeys_dissociateReset (h : Inv s) (hlive : s.Live rid c) (htok : τ) :
    Rekeys rid { c with associatedResets := c.associatedResets.filter (· ≠ htok) } s
      (s.dissociateReset htok rid c) := by
  have hmem := h.mem_cids hlive
  unfold dissociateReset setConn
  constructor <;> grind

end Resets

/-! ## Connections -/

theorem Inv.deleteConnection [DecidableEq κ] [DecidableEq τ] (h : Inv s) (hlive : s.Live rid c) :
    Inv (s.deleteConnection rid c) := by
  have hmem := h.mem_cids hlive
  have hfresh := h.fresh
  have hnamed := h.named
  unfold Live at hlive hnamed
  unfold Tables.deleteConnection
  constructor
  · grind
  · unfold Live
    grind

section Attempts

variable [DecidableEq κ]

/-- The entries of an attempt, before there is a connection. -/
def attempted (cid : κ) (s : Tables κ τ) : Tables κ τ :=
  { s with
    nextRid := s.nextRid + 1
    connLookup := assign s.connLookup cid (s.nextRid + 1)
    conns := assign s.conns (s.nextRid + 1) none }

/-- The entries of a new connection, which keeps its only id. -/
def added (cid : κ) (s : Tables κ τ) : Tables κ τ :=
  (s.attempted cid).setConn (s.nextRid + 1) { associatedCids := [cid] }

@[grind =] theorem conns_attempted (cid : κ) (r : Nat) :
    (s.attempted cid).conns r = if r = s.nextRid + 1 then some none else s.conns r :=
  assign_apply ..

@[grind =] theorem conns_added (cid : κ) (r : Nat) : (s.added cid).conns r =
    if r = s.nextRid + 1 then some (some { associatedCids := [cid] }) else s.conns r := by
  unfold added setConn attempted
  grind

@[grind =] theorem connLookup_attempted (cid k : κ) : (s.attempted cid).connLookup k =
    if k = cid then some (s.nextRid + 1) else s.connLookup k := assign_apply ..

@[grind =] theorem connLookup_added (cid k : κ) : (s.added cid).connLookup k =
    if k = cid then some (s.nextRid + 1) else s.connLookup k := assign_apply ..

@[grind =] theorem nextRid_attempted (cid : κ) : (s.attempted cid).nextRid = s.nextRid + 1 := rfl

@[grind =] theorem nextRid_added (cid : κ) : (s.added cid).nextRid = s.nextRid + 1 := rfl

/-- An id is found that is not in use, and the reference id is not in use either. -/
theorem emplaceAttempt_spec (h : Inv s) {draws : List κ}
    (hdraws : ∃ cid ∈ draws, s.connLookup cid = none) :
    ∃ cid, s.connLookup cid = none ∧ s.conns (s.nextRid + 1) = none ∧
      s.emplaceAttempt draws = .ok (cid, s.attempted cid) := by
  have hrid := h.fresh (s.nextRid + 1) (by omega)
  unfold emplaceAttempt
  cases hfind : draws.find? fun cid => (s.connLookup cid).isNone with
  | none =>
    obtain ⟨cid, hcid, hnone⟩ := hdraws
    have := List.find?_eq_none.mp hfind cid hcid
    simp [hnone] at this
  | some cid =>
    have hnone := List.find?_some hfind
    exact ⟨cid, by simpa using hnone, hrid, by simp [hrid, attempted]⟩

/-- A failed attempt to connect leaves both tables as they were. -/
theorem connect_throws (h : Inv s) {draws : List κ}
    (hdraws : ∃ cid ∈ draws, s.connLookup cid = none) :
    s.connect draws true = .ok { s with nextRid := s.nextRid + 1, lastLookup := none } := by
  obtain ⟨cid, hcid, hrid, hattempt⟩ := emplaceAttempt_spec h hdraws
  rw [connect, hattempt, ok_bind, if_pos rfl]
  simp only [attempted, erase_assign _ _ _ hcid, erase_assign _ _ _ hrid]

/-- A failed attempt to accept leaves its entries behind. -/
theorem accept_throws (h : Inv s) {draws : List κ}
    (hdraws : ∃ cid ∈ draws, s.connLookup cid = none) :
    ∃ cid, s.connLookup cid = none ∧ s.conns (s.nextRid + 1) = none ∧
      s.acceptInitialConnection draws true = .ok (s.attempted cid) := by
  obtain ⟨cid, hcid, hrid, hattempt⟩ := emplaceAttempt_spec h hdraws
  exact ⟨cid, hcid, hrid, by rw [acceptInitialConnection, hattempt, ok_bind, if_pos rfl]⟩

theorem established_attempted (cid : κ) : (s.attempted cid).established cid = s.added cid := by
  have hcid : (s.attempted cid).connLookup cid = some (s.nextRid + 1) := assign_self ..
  rw [established, associateCid_of_some hcid]
  rfl

/-- Otherwise there is a new connection. -/
theorem attempt_succeeds (h : Inv s) {draws : List κ}
    (hdraws : ∃ cid ∈ draws, s.connLookup cid = none) :
    ∃ cid, s.conns (s.nextRid + 1) = none ∧ s.connect draws false = .ok (s.added cid) ∧
      s.acceptInitialConnection draws false = .ok (s.added cid) := by
  obtain ⟨cid, hcid, hrid, hattempt⟩ := emplaceAttempt_spec h hdraws
  refine ⟨cid, hrid, ?_, ?_⟩
  · rw [connect, hattempt, ok_bind, if_neg (by decide), established_attempted]
  · rw [acceptInitialConnection, hattempt, ok_bind, if_neg (by decide), established_attempted]

end Attempts

/-- A lookup changes only what it remembers. -/
theorem fetchAssociatedConn_snd [DecidableEq κ] (cid : κ) (s : Tables κ τ) :
    ∃ last, (s.fetchAssociatedConn cid).2 = { s with lastLookup := last } := by
  have hsearch : ∃ last, (s.searchConn cid).2 = { s with lastLookup := last } := by
    unfold searchConn
    split
    · exact ⟨s.lastLookup, rfl⟩
    · split
      · exact ⟨s.lastLookup, rfl⟩
      · exact ⟨_, rfl⟩
  unfold fetchAssociatedConn
  split
  · exact hsearch
  · split_ifs
    · exact ⟨s.lastLookup, rfl⟩
    · exact hsearch

theorem checkStatelessReset_snd [DecidableEq τ] (htok : τ) (s : Tables κ τ) :
    ∃ resets, (s.checkStatelessReset htok).2 = { s with resetTokenConns := resets } := by
  unfold checkStatelessReset
  split
  · exact ⟨s.resetTokenConns, rfl⟩
  · split
    · exact ⟨s.resetTokenConns, rfl⟩
    · exact ⟨_, rfl⟩

end Tables

namespace TableRun

open Tables

variable {s t : TableRun κ τ}

structure Inv (s : TableRun κ τ) : Prop where
  tables : s.tables.Inv
  nulls : (∃ rid, s.tables.conns rid = some none) ↔ s.failedAccepts ≠ 0

/-- An operation of a connection that is there. -/
theorem onConn_eq {rid : Nat} (f : TableConn κ τ → Tables κ τ)
    (h : s.tables.getConn rid ≠ none) :
    ∃ c, s.tables.Live rid c ∧ s.onConn rid f = .ok { s with tables := f c } := by
  obtain ⟨c, hc⟩ := Option.ne_none_iff_exists'.mp h
  exact ⟨c, live_iff_getConn.mpr hc, by simp [onConn, hc]⟩

theorem Inv.rekey (h : Inv s) {rid : Nat} {c c' : TableConn κ τ} {tables : Tables κ τ}
    (hlive : s.tables.Live rid c) (ht : Rekeys rid c' s.tables tables) :
    Inv { s with tables := tables } := by
  refine ⟨h.tables.rekey hlive ht, ?_⟩
  have hconns := ht.conns
  rw [← h.nulls]
  unfold Live at hlive
  grind

/-- The tables are sound as long as no inbound connection has failed to be made, and never again
after that. -/
theorem Inv.sound_iff (h : Inv s) : s.tables.Sound ↔ s.failedAccepts = 0 := by
  constructor
  · intro hsound
    by_contra hne
    obtain ⟨rid, hnull⟩ := h.nulls.mpr hne
    exact hsound.nonnull rid hnull
  · intro hzero
    have hnonnull : ∀ rid, s.tables.conns rid ≠ some none :=
      fun rid hnull => h.nulls.mp ⟨rid, hnull⟩ hzero
    refine ⟨hnonnull, fun cid rid hcid => ?_⟩
    rcases h.tables.named cid rid hcid with ⟨c, hlive, -⟩ | hnull
    · exact ⟨c, hlive⟩
    · exact absurd hnull (hnonnull rid)

/-- A new connection. -/
theorem Inv.succeed [DecidableEq κ] (h : Inv s) (cid : κ)
    (hrid : s.tables.conns (s.tables.nextRid + 1) = none) :
    Inv { s with tables := s.tables.added cid } := by
  have hfresh := h.tables.fresh
  have hnamed := h.tables.named
  refine ⟨⟨?_, ?_⟩, ?_⟩
  · grind
  · unfold Live at hnamed ⊢
    grind
  · rw [← h.nulls]
    refine exists_congr fun rid => ?_
    grind

variable [DecidableEq κ] [DecidableEq τ]

theorem Inv.connect (h : Inv s) {draws : List κ} {throws : Bool}
    (he : s.Enabled (.connect draws throws)) :
    ∃ t, step s (.connect draws throws) = .ok t ∧ Inv t := by
  cases throws with
  | true =>
    have hfresh : ∀ rid, s.tables.nextRid + 1 < rid → s.tables.conns rid = none :=
      fun rid hrid => h.tables.fresh rid (by omega)
    have hok := connect_throws h.tables he
    refine ⟨{ s with tables := { s.tables with
      nextRid := s.tables.nextRid + 1
      lastLookup := none } }, ?_, ⟨hfresh, h.tables.named⟩, h.nulls⟩
    rw [step, hok, ok_bind]
  | false =>
    obtain ⟨cid, hrid, hok, -⟩ := attempt_succeeds h.tables he
    exact ⟨_, by rw [step, hok, ok_bind], h.succeed cid hrid⟩

theorem Inv.accept (h : Inv s) {draws : List κ} {throws : Bool}
    (he : s.Enabled (.accept draws throws)) :
    ∃ t, step s (.accept draws throws) = .ok t ∧ Inv t := by
  cases throws with
  | true =>
    obtain ⟨cid, hcid, hrid, hok⟩ := accept_throws h.tables he
    have hfresh := h.tables.fresh
    have hnamed := h.tables.named
    refine ⟨⟨_, s.failedAccepts + 1⟩, by rw [step, hok, ok_bind]; rfl, ⟨?_, ?_⟩, ?_⟩
    · grind
    · unfold Live at hnamed ⊢
      grind
    · exact iff_of_true ⟨s.tables.nextRid + 1, assign_self ..⟩ (by simp)
  | false =>
    obtain ⟨cid, hrid, -, hok⟩ := attempt_succeeds h.tables he
    exact ⟨_, by rw [step, hok, ok_bind]; rfl, h.succeed cid hrid⟩

theorem Inv.step (h : Inv s) {op : TableOp κ τ} (he : s.Enabled op) :
    ∃ t, step s op = .ok t ∧ Inv t := by
  cases op with
  | connect draws throws => exact h.connect he
  | accept draws throws => exact h.accept he
  | issue rid cid =>
    obtain ⟨c, hlive, heq⟩ := onConn_eq (fun c => s.tables.associateCid cid rid c false) he
    refine ⟨_, heq, ?_⟩
    rcases rekeys_associateCid h.tables hlive cid false with hsame | hrekeys
    · rwa [hsame]
    · exact h.rekey hlive hrekeys
  | retire rid cid =>
    obtain ⟨c, hlive, heq⟩ := onConn_eq (fun c => s.tables.dissociateCid cid rid c) he
    exact ⟨_, heq, h.rekey hlive (rekeys_dissociateCid h.tables hlive cid)⟩
  | initialDcid rid cid =>
    obtain ⟨c, hlive, heq⟩ := onConn_eq (fun c => s.tables.associateCid cid rid c true) he
    refine ⟨_, heq, ?_⟩
    rcases rekeys_associateCid h.tables hlive cid true with hsame | hrekeys
    · rwa [hsame]
    · exact h.rekey hlive hrekeys
  | handshakeCompleted rid cid =>
    obtain ⟨c, hlive, heq⟩ := onConn_eq (fun c => s.tables.serverHandshakeCompleted cid rid c) he
    refine ⟨_, heq, ?_⟩
    unfold serverHandshakeCompleted
    split_ifs
    · exact h.rekey hlive (rekeys_dissociateCid h.tables hlive cid)
    · exact h
  | fetch cid =>
    obtain ⟨last, hlast⟩ := fetchAssociatedConn_snd cid s.tables
    refine ⟨_, rfl, ?_⟩
    rw [hlast]
    exact ⟨⟨h.tables.fresh, h.tables.named⟩, h.nulls⟩
  | activate rid htok =>
    obtain ⟨c, hlive, heq⟩ := onConn_eq (fun c => s.tables.associateReset htok rid c) he
    exact ⟨_, heq, h.rekey hlive (rekeys_associateReset h.tables hlive htok)⟩
  | deactivate rid htok =>
    obtain ⟨c, hlive, heq⟩ := onConn_eq (fun c => s.tables.dissociateReset htok rid c) he
    exact ⟨_, heq, h.rekey hlive (rekeys_dissociateReset h.tables hlive htok)⟩
  | checkReset htok =>
    obtain ⟨resets, hresets⟩ := checkStatelessReset_snd htok s.tables
    refine ⟨_, rfl, ?_⟩
    rw [hresets]
    exact ⟨⟨h.tables.fresh, h.tables.named⟩, h.nulls⟩
  | delete rid =>
    obtain ⟨c, hlive, heq⟩ := onConn_eq (fun c => s.tables.deleteConnection rid c) he
    refine ⟨_, heq, h.tables.deleteConnection hlive, ?_⟩
    rw [← h.nulls]
    refine exists_congr fun r => ?_
    unfold Live at hlive
    unfold Tables.deleteConnection
    grind

theorem inductive_inv : (machine κ τ).Inductive Inv where
  initial s hs := by
    subst hs
    exact ⟨⟨by simp, by simp⟩, by simp⟩
  step _ _ h he := h.step he

/-- If a connection cannot be made, `_connect` leaves both tables as they were, and
`accept_initial_connection` never does. So a null connection is in the tables, or an id that names
none, exactly if the latter has ever happened. -/
theorem attempts_roll_back_iff (h : (machine κ τ).Reachable s) :
    (∀ draws, (∃ cid ∈ draws, s.tables.connLookup cid = none) →
      (∃ t, s.tables.connect draws true = .ok t ∧ t.conns = s.tables.conns ∧
        t.connLookup = s.tables.connLookup) ∧
      ∃ t, s.tables.acceptInitialConnection draws true = .ok t ∧ t.conns ≠ s.tables.conns ∧
        t.connLookup ≠ s.tables.connLookup) ∧
    (s.tables.Sound ↔ s.failedAccepts = 0) := by
  have hinv := inductive_inv.reachable h
  refine ⟨fun draws hdraws => ⟨⟨_, connect_throws hinv.tables hdraws, rfl, rfl⟩, ?_⟩,
    hinv.sound_iff⟩
  obtain ⟨cid, hcid, hrid, hok⟩ := accept_throws hinv.tables hdraws
  refine ⟨_, hok, fun hconns => ?_, fun hlookup => ?_⟩
  · have hnull := congrFun hconns (s.tables.nextRid + 1)
    simp [conns_attempted, hrid] at hnull
  · have hnamed := congrFun hlookup cid
    simp [connLookup_attempted, hcid] at hnamed

theorem reachable_empty : (machine κ τ).Reachable {} := .initial rfl

/-- The first packet of a client, and a connection that cannot be made for it. -/
theorem accept_leaves_null :
    ∃ s : TableRun Nat Nat, (machine Nat Nat).Reachable s ∧ s.tables.conns 1 = some none ∧
      s.tables.connLookup 7 = some 1 ∧ s.tables.getConn 1 = none := by
  have hrun : ((machine Nat Nat).run {} [.accept [7] true]).map (fun s =>
      (s.tables.conns 1, s.tables.connLookup 7, s.tables.getConn 1)) =
      some (some none, some 1, none) := by decide
  obtain ⟨s, hs, hview⟩ := Option.map_eq_some_iff.mp hrun
  simp only [Prod.mk.injEq] at hview
  exact ⟨s, reachable_empty.run hs, hview⟩

/-- An attempt to connect fails while another connection is there. -/
theorem attempts_roll_back_iff_connected :
    ∃ (s : TableRun Nat Nat) (t : Tables Nat Nat), (machine Nat Nat).Reachable s ∧
      s.tables.connLookup 7 = some 1 ∧ s.tables.Sound ∧
      s.tables.connect [7, 8] true = .ok t ∧
      t.conns = s.tables.conns ∧ t.connLookup = s.tables.connLookup := by
  have hrun : ((machine Nat Nat).run {} [.connect [7] false]).map (fun s =>
      (s.tables.connLookup 7, s.tables.connLookup 8, s.failedAccepts)) =
      some (some 1, none, 0) := by decide
  obtain ⟨s, hs, hview⟩ := Option.map_eq_some_iff.mp hrun
  simp only [Prod.mk.injEq] at hview
  obtain ⟨hseven, height, hfailed⟩ := hview
  have hreach := reachable_empty.run hs
  obtain ⟨hattempts, hsound⟩ := attempts_roll_back_iff hreach
  obtain ⟨⟨t, hok, hconns, hlookup⟩, -⟩ := hattempts [7, 8] ⟨8, by decide, height⟩
  exact ⟨s, t, hreach, hseven, hsound.mpr hfailed, hok, hconns, hlookup⟩

end TableRun

end Libquic
