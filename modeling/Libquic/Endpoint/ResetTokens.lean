import Libquic.Endpoint.Attempts

/-!
# Stateless reset tokens

A peer chooses the tokens, so two connections may have the same one. `reset_token_conns` then names
the last that activated it, and forgets the token as soon as any connection that has it lets go of
it. What is mapped is always right; what is mapped nowhere may still be in use.
-/
namespace Libquic

open Lib PartialMap

variable {κ τ : Type}

namespace Tables

variable {s t : Tables κ τ} {rid : Nat} {c c' : TableConn κ τ}

/-- The token has been activated on a connection that is there, and not deactivated since. -/
def Active (s : Tables κ τ) (rid : Nat) (htok : τ) : Prop :=
  ∃ c, s.Live rid c ∧ htok ∈ c.associatedResets

/-- A token that is active is looked up as a connection that has it active. -/
def Mapped (s : Tables κ τ) (htok : τ) : Prop :=
  ∀ rid, s.Active rid htok → ∃ owner, s.resetTokenConns htok = some owner ∧ s.Active owner htok

/-- Every entry names a connection that has the token active. -/
def Owned (s : Tables κ τ) : Prop :=
  ∀ htok rid, s.resetTokenConns htok = some rid → s.Active rid htok

/-- A connection lets go of the token while another one has it active. -/
def Releases (s : Tables κ τ) (htok : τ) : TableOp κ τ → Prop
  | .deactivate rid htok' => htok' = htok ∧ ∃ other, other ≠ rid ∧ s.Active other htok
  | .delete rid => s.Active rid htok ∧ ∃ other, other ≠ rid ∧ s.Active other htok
  | _ => False

theorem active_iff (hlive : s.Live rid c) (htok : τ) :
    s.Active rid htok ↔ htok ∈ c.associatedResets := by
  unfold Active Live at *
  grind

/-- All that a step does to the tokens. -/
structure TokenStep (op : TableOp κ τ) (s t : Tables κ τ) : Prop where
  active : ∀ rid htok, t.Active rid htok ↔
    op = .activate rid htok ∨
      s.Active rid htok ∧ op ≠ .deactivate rid htok ∧ op ≠ .delete rid
  entry : ∀ htok rid, t.resetTokenConns htok = some rid ↔
    op = .activate rid htok ∨
      s.resetTokenConns htok = some rid ∧ (∀ r, op ≠ .activate r htok) ∧
        (∀ r, op ≠ .deactivate r htok) ∧ ∀ r, op = .delete r → ¬ s.Active r htok

namespace TokenStep

variable {op : TableOp κ τ}

theorem owned (h : TokenStep op s t) (hs : s.Owned) : t.Owned := by
  intro htok rid hrid
  rw [h.active]
  rcases (h.entry htok rid).mp hrid with hop | ⟨hentry, -, hdeactivate, hdelete⟩
  · exact .inl hop
  · have hactive := hs htok rid hentry
    exact .inr ⟨hactive, hdeactivate rid, fun hop => hdelete rid hop hactive⟩

/-- A token that was mapped stays so, except if it is released. -/
theorem mapped_iff (h : TokenStep op s t) (hs : s.Owned) {htok : τ} (hmapped : s.Mapped htok) :
    t.Mapped htok ↔ ¬ s.Releases htok op := by
  constructor
  · intro ht hreleases
    -- The other connection still has the token, whose entry is gone.
    have hgone : ∀ other, t.Active other htok → (∀ owner, t.resetTokenConns htok ≠ some owner) →
        False := by
      intro other hother hnone
      obtain ⟨owner, howner, -⟩ := ht other hother
      exact hnone owner howner
    cases op with
    | deactivate rid htok' =>
      obtain ⟨rfl, other, hne, hother⟩ := hreleases
      apply hgone other
      · rw [h.active]
        grind
      · intro owner
        have hentry := h.entry htok' owner
        grind
    | delete rid =>
      obtain ⟨hrid, other, hne, hother⟩ := hreleases
      apply hgone other
      · rw [h.active]
        grind
      · intro owner
        have hentry := h.entry htok owner
        grind
    | _ => exact hreleases
  · intro hkeeps rid hrid
    have hentry := h.entry htok
    rcases (h.active rid htok).mp hrid with hop | ⟨hactive, hdeactivate, hdelete⟩
    · exact ⟨rid, (hentry rid).mpr (.inl hop), hrid⟩
    obtain ⟨owner, howner, -⟩ := hmapped rid hactive
    by_cases hactivate : ∃ r, op = .activate r htok
    · obtain ⟨r, hop⟩ := hactivate
      exact ⟨r, (hentry r).mpr (.inl hop), (h.active r htok).mpr (.inl hop)⟩
    have hkept : t.resetTokenConns htok = some owner := by
      refine (hentry owner).mpr (.inr ⟨howner, fun r hop => hactivate ⟨r, hop⟩, ?_, ?_⟩)
      · rintro r rfl
        refine hkeeps ⟨rfl, rid, ?_, hactive⟩
        rintro rfl
        exact hdeactivate rfl
      · rintro r rfl hr
        refine hkeeps ⟨hr, rid, ?_, hactive⟩
        rintro rfl
        exact hdelete rfl
    exact ⟨owner, hkept, h.owned hs htok owner hkept⟩

/-- A step that is about something else. -/
theorem frame (hactive : ∀ rid htok, t.Active rid htok ↔ s.Active rid htok)
    (hentry : t.resetTokenConns = s.resetTokenConns)
    (hop : (∀ r k, op ≠ .activate r k ∧ op ≠ .deactivate r k) ∧ ∀ r, op ≠ .delete r) :
    TokenStep op s t := by
  constructor
  · grind
  · grind

end TokenStep

theorem Rekeys.active (ht : Rekeys rid c' s t) (hlive : s.Live rid c)
    (hsame : c'.associatedResets = c.associatedResets) (r : Nat) (htok : τ) :
    t.Active r htok ↔ s.Active r htok := by
  have hconns := ht.conns r
  unfold Active Live at *
  grind

/-- An attempt adds a connection without tokens, or none. -/
theorem active_of_new {x : Option (TableConn κ τ)} (hrid : s.conns rid = none)
    (hconns : ∀ r, t.conns r = if r = rid then some x else s.conns r)
    (hx : ∀ c ∈ x, c.associatedResets = []) (r : Nat) (htok : τ) :
    t.Active r htok ↔ s.Active r htok := by
  have hr := hconns r
  unfold Active Live
  grind

section Cids

variable [DecidableEq κ]

theorem active_associateCid (h : Inv s) (hlive : s.Live rid c) (cid : κ) (weakly : Bool) (r : Nat)
    (htok : τ) : (s.associateCid cid rid c weakly).Active r htok ↔ s.Active r htok := by
  rcases rekeys_associateCid h hlive cid weakly with hsame | hrekeys
  · rw [hsame]
  · exact hrekeys.active hlive rfl r htok

theorem resetTokenConns_associateCid (cid : κ) (rid : Nat) (c : TableConn κ τ) (weakly : Bool) :
    (s.associateCid cid rid c weakly).resetTokenConns = s.resetTokenConns := by
  simp only [associateCid]
  split_ifs <;> rfl

end Cids

section Resets

variable [DecidableEq τ]

theorem tokenStep_associateReset (hlive : s.Live rid c) (htok : τ) :
    TokenStep (.activate rid htok) s (s.associateReset htok rid c) := by
  constructor
  · intro r k
    unfold Active Live associateReset setConn at *
    grind
  · unfold associateReset setConn
    grind

theorem tokenStep_dissociateReset (hlive : s.Live rid c) (htok : τ) :
    TokenStep (.deactivate rid htok) s (s.dissociateReset htok rid c) := by
  constructor
  · intro r k
    unfold Active Live dissociateReset setConn at *
    grind
  · intro k r
    unfold dissociateReset setConn
    by_cases hk : k = htok
    · subst hk
      simp
    · grind

theorem tokenStep_deleteConnection [DecidableEq κ] (hlive : s.Live rid c) :
    TokenStep (.delete rid) s (s.deleteConnection rid c) := by
  have hiff := active_iff hlive
  constructor
  · intro r k
    unfold Active Live deleteConnection at *
    grind
  · unfold deleteConnection
    grind

/-- A token is looked up only as a connection that is there, so no lookup erases an entry. -/
theorem checkStatelessReset_owned (hs : s.Owned) (htok : τ) :
    s.checkStatelessReset htok = (s.resetTokenConns htok, s) := by
  unfold checkStatelessReset
  cases hentry : s.resetTokenConns htok with
  | none => rfl
  | some rid =>
    obtain ⟨c, hlive, -⟩ := hs htok rid hentry
    simp [live_iff_getConn.mp hlive]

end Resets

end Tables

namespace TableRun

open Tables

variable {s t : TableRun κ τ} [DecidableEq κ] [DecidableEq τ]

theorem tokenStep_connect (h : s.tables.Inv) {draws : List κ} {throws : Bool}
    (he : s.Enabled (.connect draws throws)) :
    ∃ t, step s (.connect draws throws) = .ok t ∧
      TokenStep (.connect draws throws) s.tables t.tables := by
  cases throws with
  | true =>
    have hok := connect_throws h he
    refine ⟨{ s with tables := _ }, by rw [step, hok, ok_bind], ?_⟩
    exact .frame (fun _ _ => Iff.rfl) rfl (by simp)
  | false =>
    obtain ⟨cid, hrid, hok, -⟩ := attempt_succeeds h he
    refine ⟨{ s with tables := s.tables.added cid }, by rw [step, hok, ok_bind], ?_⟩
    exact .frame (active_of_new hrid (conns_added cid) (by simp)) rfl (by simp)

theorem tokenStep_accept (h : s.tables.Inv) {draws : List κ} {throws : Bool}
    (he : s.Enabled (.accept draws throws)) :
    ∃ t, step s (.accept draws throws) = .ok t ∧
      TokenStep (.accept draws throws) s.tables t.tables := by
  cases throws with
  | true =>
    obtain ⟨cid, -, hrid, hok⟩ := accept_throws h he
    refine ⟨⟨_, s.failedAccepts + 1⟩, by rw [step, hok, ok_bind]; rfl, ?_⟩
    exact .frame (active_of_new hrid (conns_attempted cid) (by simp)) rfl (by simp)
  | false =>
    obtain ⟨cid, hrid, -, hok⟩ := attempt_succeeds h he
    refine ⟨{ s with tables := s.tables.added cid }, by rw [step, hok, ok_bind]; rfl, ?_⟩
    exact .frame (active_of_new hrid (conns_added cid) (by simp)) rfl (by simp)

theorem tokenStep (h : s.tables.Inv) (howned : s.tables.Owned) {op : TableOp κ τ}
    (he : s.Enabled op) : ∃ t, step s op = .ok t ∧ TokenStep op s.tables t.tables := by
  cases op with
  | connect draws throws => exact tokenStep_connect h he
  | accept draws throws => exact tokenStep_accept h he
  | issue rid cid =>
    obtain ⟨c, hlive, heq⟩ := onConn_eq (fun c => s.tables.associateCid cid rid c false) he
    exact ⟨_, heq, .frame (active_associateCid h hlive cid false)
      (resetTokenConns_associateCid ..) (by simp)⟩
  | retire rid cid =>
    obtain ⟨c, hlive, heq⟩ := onConn_eq (fun c => s.tables.dissociateCid cid rid c) he
    exact ⟨_, heq, .frame ((rekeys_dissociateCid h hlive cid).active hlive rfl) rfl (by simp)⟩
  | initialDcid rid cid =>
    obtain ⟨c, hlive, heq⟩ := onConn_eq (fun c => s.tables.associateCid cid rid c true) he
    exact ⟨_, heq, .frame (active_associateCid h hlive cid true)
      (resetTokenConns_associateCid ..) (by simp)⟩
  | handshakeCompleted rid cid =>
    obtain ⟨c, hlive, heq⟩ := onConn_eq (fun c => s.tables.serverHandshakeCompleted cid rid c) he
    refine ⟨_, heq, ?_⟩
    unfold serverHandshakeCompleted
    split_ifs
    · exact .frame ((rekeys_dissociateCid h hlive cid).active hlive rfl) rfl (by simp)
    · exact .frame (fun _ _ => Iff.rfl) rfl (by simp)
  | fetch cid =>
    obtain ⟨last, hlast⟩ := fetchAssociatedConn_snd cid s.tables
    refine ⟨_, rfl, ?_⟩
    rw [hlast]
    exact .frame (fun _ _ => Iff.rfl) rfl (by simp)
  | activate rid htok =>
    obtain ⟨c, hlive, heq⟩ := onConn_eq (fun c => s.tables.associateReset htok rid c) he
    exact ⟨_, heq, tokenStep_associateReset hlive htok⟩
  | deactivate rid htok =>
    obtain ⟨c, hlive, heq⟩ := onConn_eq (fun c => s.tables.dissociateReset htok rid c) he
    exact ⟨_, heq, tokenStep_dissociateReset hlive htok⟩
  | checkReset htok =>
    refine ⟨_, rfl, ?_⟩
    rw [checkStatelessReset_owned howned]
    exact .frame (fun _ _ => Iff.rfl) rfl (by simp)
  | delete rid =>
    obtain ⟨c, hlive, heq⟩ := onConn_eq (fun c => s.tables.deleteConnection rid c) he
    exact ⟨_, heq, tokenStep_deleteConnection hlive⟩

theorem inductive_owned :
    (machine κ τ).Inductive fun s => s.Inv ∧ s.tables.Owned where
  initial s hs := ⟨inductive_inv.initial s hs, by subst hs; simp [Owned]⟩
  step s op h he := by
    obtain ⟨t, ht, hinv⟩ := h.1.step he
    obtain ⟨t', ht', htokens⟩ := tokenStep h.1.tables h.2 he
    obtain rfl : t' = t := Except.ok.inj (ht'.symm.trans ht)
    exact ⟨t', ht, hinv, htokens.owned h.2⟩

/-- Every step that is made does to the tokens what `TokenStep` says. -/
theorem tokenStep_of_ok (h : (machine κ τ).Reachable s) {op : TableOp κ τ} (he : s.Enabled op)
    (ht : step s op = .ok t) : TokenStep op s.tables t.tables := by
  obtain ⟨hinv, howned⟩ := inductive_owned.reachable h
  obtain ⟨t', ht', htokens⟩ := tokenStep hinv.tables howned he
  obtain rfl : t' = t := Except.ok.inj (ht'.symm.trans ht)
  exact htokens

/-- Runs in which no connection lets go of the token while another one has it active. -/
def keeping (κ : Type) [DecidableEq κ] (htok : τ) :
    Machine (TableRun κ τ) (TableOp κ τ) Fault where
  initial s := s = {}
  enabled s op := s.Enabled op ∧ ¬ s.tables.Releases htok op
  step := step

theorem reachable_of_keeping {htok : τ} (h : (keeping κ htok).Reachable s) :
    (machine κ τ).Reachable s := by
  induction h with
  | initial hs => exact .initial hs
  | step _ he ht ih => exact ih.step he.1 ht

theorem mapped_of_keeping {htok : τ} (h : (keeping κ htok).Reachable s) :
    s.tables.Mapped htok := by
  induction h with
  | initial hs =>
    cases hs
    simp [Mapped, Active, Live]
  | step hs he ht ih =>
    have hreach := reachable_of_keeping hs
    have howned := (inductive_owned.reachable hreach).2
    exact ((tokenStep_of_ok hreach he.1 ht).mapped_iff howned ih).mpr he.2

/-- Whatever a token is looked up as is a connection that has it active. A token that is active
stays mapped as long as no connection lets go of it while another one has it active, and the first
step at which one does unmaps it. -/
theorem tokens_mapped_iff (htok : τ) (h : (machine κ τ).Reachable s) :
    (∀ rid, s.tables.resetTokenConns htok = some rid → s.tables.Active rid htok) ∧
    ((keeping κ htok).Reachable s → s.tables.Mapped htok) ∧
    ∀ op t, s.Enabled op → step s op = .ok t → s.tables.Mapped htok →
      (t.tables.Mapped htok ↔ ¬ s.tables.Releases htok op) := by
  have howned := (inductive_owned.reachable h).2
  refine ⟨howned htok, mapped_of_keeping, ?_⟩
  intro op t he ht hmapped
  exact (tokenStep_of_ok h he ht).mapped_iff howned hmapped

/-- Three connections, of which the first two have the same token. -/
theorem reachable_shared :
    ∃ s : TableRun Nat Nat, (machine Nat Nat).Reachable s ∧
      s.tables.Live 1 { associatedCids := [7], associatedResets := [9] } ∧
      s.tables.Live 2 { associatedCids := [8], associatedResets := [9] } ∧
      s.tables.Live 3 { associatedCids := [6] } ∧ s.tables.resetTokenConns 9 = some 2 := by
  have hrun : ((machine Nat Nat).run {} [.connect [7] false, .connect [8] false,
        .connect [6] false, .activate 1 9, .activate 2 9]).map (fun s =>
          ([1, 2, 3].map s.tables.conns, s.tables.resetTokenConns 9)) =
      some ([some (some { associatedCids := [7], associatedResets := [9] }),
        some (some { associatedCids := [8], associatedResets := [9] }),
        some (some { associatedCids := [6] })], some 2) := by decide
  obtain ⟨s, hs, hview⟩ := Option.map_eq_some_iff.mp hrun
  simp only [List.map_cons, List.map_nil, Prod.mk.injEq, List.cons.injEq, and_true,
    and_assoc] at hview
  exact ⟨s, reachable_empty.run hs, hview⟩

/-- The first connection still has the token after a step that lets go of it on the second. -/
theorem token_unmapped {s : TableRun κ τ} {htok : τ} {op : TableOp κ τ}
    (hreach : (machine κ τ).Reachable s) (hone : s.tables.Active 1 htok)
    (htwo : s.tables.Active 2 htok) (hop : op = .deactivate 2 htok ∨ op = .delete 2) :
    ∃ t, s.Enabled op ∧ step s op = .ok t ∧ t.tables.Active 1 htok ∧
      t.tables.resetTokenConns htok = none := by
  have hconn : s.tables.getConn 2 ≠ none := by
    obtain ⟨c, hlive, -⟩ := htwo
    simp [live_iff_getConn.mp hlive]
  have henabled : s.Enabled op := by rcases hop with rfl | rfl <;> exact hconn
  obtain ⟨t, ht⟩ := inductive_inv.progress hreach henabled
  have htokens := tokenStep_of_ok hreach henabled ht
  refine ⟨t, henabled, ht, (htokens.active 1 htok).mpr (.inr ⟨hone, ?_⟩), ?_⟩
  · rcases hop with rfl | rfl <;> simp
  · refine Option.eq_none_iff_forall_ne_some.mpr fun owner howner => ?_
    have hkept := (htokens.entry htok owner).mp howner
    rcases hop with rfl | rfl <;> grind

/-- The second connection lets go of the token, or is deleted. -/
theorem token_unmapped_while_active :
    ∃ s t u : TableRun Nat Nat, (machine Nat Nat).Reachable s ∧
      s.tables.resetTokenConns 9 = some 2 ∧
      (s.Enabled (.deactivate 2 9) ∧ step s (.deactivate 2 9) = .ok t ∧
        t.tables.Active 1 9 ∧ t.tables.resetTokenConns 9 = none) ∧
      (s.Enabled (.delete 2) ∧ step s (.delete 2) = .ok u ∧
        u.tables.Active 1 9 ∧ u.tables.resetTokenConns 9 = none) := by
  obtain ⟨s, hreach, hone, htwo, -, hentry⟩ := reachable_shared
  have hactive : s.tables.Active 1 9 := ⟨_, hone, by simp⟩
  have hactive' : s.tables.Active 2 9 := ⟨_, htwo, by simp⟩
  obtain ⟨t, hdeactivate⟩ := token_unmapped hreach hactive hactive' (.inl rfl)
  obtain ⟨u, hdelete⟩ := token_unmapped hreach hactive hactive' (.inr rfl)
  exact ⟨s, t, u, hreach, hentry, hdeactivate, hdelete⟩

/-- The token of two connections stays mapped if a third is deleted. -/
theorem tokens_mapped_iff_shared :
    ∃ s t : TableRun Nat Nat, (machine Nat Nat).Reachable s ∧ s.tables.Active 1 9 ∧
      s.tables.Active 2 9 ∧ s.Enabled (.delete 3) ∧ step s (.delete 3) = .ok t ∧
      t.tables.Mapped 9 := by
  obtain ⟨s, hreach, hone, htwo, hthree, hentry⟩ := reachable_shared
  have hactive : s.tables.Active 2 9 := ⟨_, htwo, by simp⟩
  have henabled : s.Enabled (.delete 3) := by simp [Enabled, live_iff_getConn.mp hthree]
  obtain ⟨t, ht⟩ := inductive_inv.progress (i := .delete 3) hreach henabled
  have hkeeps : ¬ s.tables.Releases 9 (.delete 3) := by
    rintro ⟨hdeleted, -⟩
    simp [active_iff hthree] at hdeleted
  have hmapped : s.tables.Mapped 9 := fun _ _ => ⟨2, hentry, hactive⟩
  have hiff := (tokens_mapped_iff 9 hreach).2.2 (.delete 3) t henabled ht hmapped
  exact ⟨s, t, hreach, ⟨_, hone, by simp⟩, hactive, henabled, ht, hiff.mpr hkeeps⟩

end TableRun

end Libquic
