import Libquic.Endpoint.Attempts

/-!
# Connection ids

A connection is found by any of its ids: those that are generated for it, and the one that its
client chose for the first packet, which is added only if it is not in use and removed again when
the handshake is complete. `conn_lookup` and the sets of the connections say the same at all times,
and the lookup that is remembered is one that would be found again.
-/
namespace Libquic

open Lib PartialMap

variable {κ τ : Type}

namespace Tables

variable {s t : Tables κ τ} {rid : Nat} {c : TableConn κ τ}

/-- The id is in the set of a connection that is there. -/
def Associated (s : Tables κ τ) (rid : Nat) (cid : κ) : Prop :=
  ∃ c, s.Live rid c ∧ cid ∈ c.associatedCids

/-- `get_conn` of a connection id: the lookup in both maps. -/
def getConnByCid (cid : κ) (s : Tables κ τ) : Option Nat := do
  let rid ← s.connLookup cid
  let _ ← s.getConn rid
  some rid

/-- The two tables say the same, and what is remembered is true. -/
structure Agree (s : Tables κ τ) : Prop where
  entry : ∀ cid rid, s.connLookup cid = some rid ↔ s.Associated rid cid
  last : ∀ cid rid, s.lastLookup = some (cid, rid) → s.connLookup cid = some rid

theorem associated_iff (hlive : s.Live rid c) (cid : κ) :
    s.Associated rid cid ↔ cid ∈ c.associatedCids := by
  unfold Associated Live at *
  grind

theorem Associated.getConn_ne {cid : κ} (h : s.Associated rid cid) : s.getConn rid ≠ none := by
  obtain ⟨c, hlive, -⟩ := h
  simp [live_iff_getConn.mp hlive]

theorem Agree.getConnByCid_eq (h : Agree s) (cid : κ) : s.getConnByCid cid = s.connLookup cid := by
  unfold getConnByCid
  cases hcid : s.connLookup cid with
  | none => rfl
  | some rid =>
    obtain ⟨c, hlive, -⟩ := (h.entry cid rid).mp hcid
    simp [live_iff_getConn.mp hlive]

/-- All that a step does to the ids: connections get some, and others are taken from them. -/
structure CidStep (gives takes : Nat → κ → Prop) (s t : Tables κ τ) : Prop where
  associated : ∀ rid cid, t.Associated rid cid ↔
    gives rid cid ∨ s.Associated rid cid ∧ ¬ takes rid cid
  entry : ∀ cid rid, t.connLookup cid = some rid ↔
    gives rid cid ∨ s.connLookup cid = some rid ∧ ¬ takes rid cid
  last : ∀ cid rid, t.lastLookup = some (cid, rid) →
    s.connLookup cid = some rid ∧ ¬ takes rid cid

theorem CidStep.agree {gives takes : Nat → κ → Prop} (h : CidStep gives takes s t)
    (hs : Agree s) : Agree t where
  entry cid rid := by rw [h.entry, h.associated, hs.entry]
  last cid rid hlast := (h.entry cid rid).mpr (.inr (h.last cid rid hlast))

/-- Nothing changes if there is nothing to take. -/
theorem CidStep.refl {takes : Nat → κ → Prop} (hs : Agree s)
    (htakes : ∀ rid cid, takes rid cid → ¬ s.Associated rid cid) :
    CidStep (fun _ _ => False) takes s s where
  associated rid cid := by grind
  entry cid rid := by
    have hentry := hs.entry cid rid
    grind
  last cid rid hlast := by
    have hcid := hs.last cid rid hlast
    exact ⟨hcid, fun htake => htakes rid cid htake ((hs.entry cid rid).mp hcid)⟩

variable [DecidableEq κ]

theorem cidStep_added (hs : Agree s) {cid : κ} (hcid : s.connLookup cid = none)
    (hrid : s.conns (s.nextRid + 1) = none) :
    CidStep (fun r k => r = s.nextRid + 1 ∧ k = cid) (fun _ _ => False) s (s.added cid) := by
  constructor
  · intro r k
    have hconns := conns_added cid r (s := s)
    unfold Associated Live
    grind
  · intro k r
    have hlookup := connLookup_added cid k (s := s)
    grind
  · intro k r hlast
    exact ⟨hs.last k r hlast, not_false⟩

/-- An id that is not in use is added, whether weakly or not. -/
theorem cidStep_associateCid (hs : Agree s) (hlive : s.Live rid c) {cid : κ} (weakly : Bool)
    (hcid : s.connLookup cid = none) :
    CidStep (fun r k => r = rid ∧ k = cid) (fun _ _ => False) s
      (s.associateCid cid rid c weakly) := by
  rw [associateCid_of_none hcid]
  constructor
  · intro r k
    unfold Associated Live setConn at *
    grind
  · intro k r
    unfold setConn
    grind
  · intro k r hlast
    exact ⟨hs.last k r hlast, not_false⟩

theorem cidStep_dissociateCid (hs : Agree s) (hlive : s.Live rid c) {cid : κ}
    (hcid : cid ∈ c.associatedCids) :
    CidStep (fun _ _ => False) (fun r k => r = rid ∧ k = cid) s (s.dissociateCid cid rid c) := by
  have hentry := (hs.entry cid rid).mpr ⟨c, hlive, hcid⟩
  constructor
  · intro r k
    unfold Associated Live dissociateCid setConn at *
    grind
  · intro k r
    unfold dissociateCid setConn
    grind
  · intro k r hlast
    simp [dissociateCid, setConn] at hlast

/-- A lookup remembers what it has found. -/
theorem cidStep_fetchAssociatedConn (hs : Agree s) (cid : κ) :
    CidStep (fun _ _ => False) (fun _ _ => False) s (s.fetchAssociatedConn cid).2 := by
  obtain ⟨last, hsame⟩ := fetchAssociatedConn_snd cid s
  have hlast : ∀ k r, (s.fetchAssociatedConn cid).2.lastLookup = some (k, r) →
      s.connLookup k = some r := by
    have hold := hs.last
    unfold fetchAssociatedConn searchConn
    grind
  rw [hsame] at hlast ⊢
  constructor
  · exact fun r k => by simp [Associated, Live]
  · simp
  · exact fun k r h => ⟨hlast k r h, not_false⟩

/-- The remembered lookup makes no difference. -/
theorem fetchAssociatedConn_fst (hs : Agree s) (cid : κ) :
    (s.fetchAssociatedConn cid).1 = s.getConnByCid cid := by
  have hsearch : (s.searchConn cid).1 = s.getConnByCid cid := by
    unfold searchConn getConnByCid
    cases s.connLookup cid with
    | none => rfl
    | some rid => cases hconn : s.getConn rid <;> simp [hconn]
  unfold fetchAssociatedConn
  cases hlast : s.lastLookup with
  | none => exact hsearch
  | some last =>
    dsimp only
    split_ifs with hcid
    · rw [hs.getConnByCid_eq, hcid, hs.last last.1 last.2 hlast]
    · exact hsearch

theorem cidStep_deleteConnection [DecidableEq τ] (hs : Agree s) (hlive : s.Live rid c) :
    CidStep (fun _ _ => False) (fun r _ => r = rid) s (s.deleteConnection rid c) := by
  have hiff := associated_iff hlive
  have hentry := hs.entry
  constructor
  · intro r k
    unfold Associated Live deleteConnection at *
    grind
  · intro k r
    unfold deleteConnection
    grind
  · intro k r hlast
    simp [deleteConnection] at hlast

/-- The first id that is drawn is free. -/
theorem attempt_first {cid : κ} (hcid : s.connLookup cid = none)
    (hrid : s.conns (s.nextRid + 1) = none) :
    s.connect [cid] false = .ok (s.added cid) ∧
      s.acceptInitialConnection [cid] false = .ok (s.added cid) := by
  have hattempt : s.emplaceAttempt [cid] = .ok (cid, s.attempted cid) := by
    simp [emplaceAttempt, hcid, hrid, attempted]
  constructor
  · rw [connect, hattempt, ok_bind, if_neg (by decide), established_attempted]
  · rw [acceptInitialConnection, hattempt, ok_bind, if_neg (by decide), established_attempted]

end Tables

/-! ## Runs -/

/-- What happens to the ids. A connection is accepted for a packet with an id that its client
chose, if it has one; each other id is newly generated. -/
inductive CidOp (κ : Type) where
  | connect (cid : κ)
  | accept (initDcid : Option κ) (cid : κ)
  | issue (rid : Nat) (cid : κ)
  | retire (rid : Nat) (cid : κ)
  | initialDcid (rid : Nat) (cid : κ)
  | handshakeCompleted (rid : Nat) (initDcid : κ)
  | fetch (cid : κ)
  | delete (rid : Nat)
  deriving DecidableEq, Repr

/-- What the tables see of it; connections can be made. -/
def CidOp.tableOp (τ : Type) : CidOp κ → TableOp κ τ
  | .connect cid => .connect [cid] false
  | .accept _ cid => .accept [cid] false
  | .issue rid cid => .issue rid cid
  | .retire rid cid => .retire rid cid
  | .initialDcid rid cid => .initialDcid rid cid
  | .handshakeCompleted rid initDcid => .handshakeCompleted rid initDcid
  | .fetch cid => .fetch cid
  | .delete rid => .delete rid

/-- The tables, and what ngtcp2 has for each connection: the ids that it has asked for and not
retired, and the id that the client chose. -/
structure CidRun (κ τ : Type) where
  run : TableRun κ τ := {}
  scids : Nat → List κ := fun _ => []
  initDcid : Nat → Option κ := fun _ => none

namespace CidRun

open Tables

abbrev tables (s : CidRun κ τ) : Tables κ τ := s.run.tables

/-- A generated id is not in use, nor the one that the connection's client chose. Only an id that
ngtcp2 has can be retired. -/
def Enabled (s : CidRun κ τ) : CidOp κ → Prop
  | .connect cid => s.tables.connLookup cid = none
  | .accept initDcid cid => s.tables.connLookup cid = none ∧ initDcid ≠ some cid
  | .issue rid cid => s.tables.getConn rid ≠ none ∧ s.tables.connLookup cid = none ∧
      s.initDcid rid ≠ some cid
  | .retire rid cid => cid ∈ s.scids rid
  | .initialDcid rid cid | .handshakeCompleted rid cid =>
      s.tables.getConn rid ≠ none ∧ s.initDcid rid = some cid
  | .fetch _ => True
  | .delete rid => s.tables.getConn rid ≠ none

/-- Which connection gets which id. -/
def Gives (s : CidRun κ τ) : CidOp κ → Nat → κ → Prop
  | .connect cid, r, k | .accept _ cid, r, k => r = s.tables.nextRid + 1 ∧ k = cid
  | .issue rid cid, r, k => r = rid ∧ k = cid
  | .initialDcid rid cid, r, k => (r = rid ∧ k = cid) ∧ s.tables.connLookup cid = none
  | _, _, _ => False

/-- Which connection gives up which id. -/
def Takes : CidOp κ → Nat → κ → Prop
  | .retire rid cid, r, k | .handshakeCompleted rid cid, r, k => r = rid ∧ k = cid
  | .delete rid, r, _ => r = rid
  | _, _, _ => False

variable {s : CidRun κ τ} {op : CidOp κ}

/-- An entry stays as it is, or its own connection gives it up. -/
theorem entry_after {t : Tables κ τ} (h : CidStep (s.Gives op) (Takes op) s.tables t) {cid : κ}
    {rid : Nat} (hcid : s.tables.connLookup cid = some rid) :
    t.connLookup cid = some rid ∨ t.connLookup cid = none ∧
      (op = .retire rid cid ∨ op = .handshakeCompleted rid cid ∨ op = .delete rid) := by
  have hentry := h.entry cid
  by_cases htake : Takes op rid cid
  · refine .inr ⟨Option.eq_none_iff_forall_ne_some.mpr fun rid' hrid' => ?_, ?_⟩
    · cases op <;> grind [Gives, Takes]
    · cases op <;> grind [Takes]
  · exact .inl ((hentry rid).mpr (.inr ⟨hcid, htake⟩))

/-- What ngtcp2 has for a connection is in its set, and is not the id that the client chose. -/
structure Inv (s : CidRun κ τ) : Prop where
  run : s.run.Inv
  agree : s.tables.Agree
  scids : ∀ rid, ∀ cid ∈ s.scids rid, s.tables.Associated rid cid
  initDcid : ∀ rid, ∀ cid ∈ s.scids rid, s.initDcid rid ≠ some cid

theorem Inv.enabled (h : Inv s) (he : s.Enabled op) : s.run.Enabled (op.tableOp τ) := by
  cases op with
  | connect cid => exact ⟨cid, by simp, he⟩
  | accept initDcid cid => exact ⟨cid, by simp, he.1⟩
  | issue rid cid => exact he.1
  | retire rid cid => exact (h.scids rid cid he).getConn_ne
  | initialDcid rid cid => exact he.1
  | handshakeCompleted rid cid => exact he.1
  | fetch cid => trivial
  | delete rid => exact he

variable [DecidableEq κ]

instance (s : CidRun κ τ) (op : CidOp κ) : Decidable (s.Enabled op) :=
  match op with
  | .connect cid => inferInstanceAs (Decidable (s.tables.connLookup cid = none))
  | .accept initDcid cid =>
    inferInstanceAs (Decidable (s.tables.connLookup cid = none ∧ initDcid ≠ some cid))
  | .issue rid cid =>
    inferInstanceAs (Decidable (s.tables.getConn rid ≠ none ∧ s.tables.connLookup cid = none ∧
      s.initDcid rid ≠ some cid))
  | .retire rid cid => inferInstanceAs (Decidable (cid ∈ s.scids rid))
  | .initialDcid rid cid | .handshakeCompleted rid cid =>
    inferInstanceAs (Decidable (s.tables.getConn rid ≠ none ∧ s.initDcid rid = some cid))
  | .fetch _ => inferInstanceAs (Decidable True)
  | .delete rid => inferInstanceAs (Decidable (s.tables.getConn rid ≠ none))

/-- What ngtcp2 has for the connection `r` afterwards. -/
def scidsAfter (s : CidRun κ τ) (op : CidOp κ) (r : Nat) : List κ :=
  match op with
  | .connect cid | .accept _ cid => if r = s.tables.nextRid + 1 then [cid] else s.scids r
  | .issue rid cid => if r = rid then (s.scids r).insert cid else s.scids r
  | .retire rid cid => if r = rid then (s.scids r).filter (· ≠ cid) else s.scids r
  | .delete rid => if r = rid then [] else s.scids r
  | _ => s.scids r

def initDcidAfter (s : CidRun κ τ) (op : CidOp κ) (r : Nat) : Option κ :=
  match op with
  | .connect _ => if r = s.tables.nextRid + 1 then none else s.initDcid r
  | .accept initDcid _ => if r = s.tables.nextRid + 1 then initDcid else s.initDcid r
  | _ => s.initDcid r

/-- What ngtcp2 has afterwards is new, or has not been taken. -/
theorem Inv.mem_scidsAfter (h : Inv s) (he : s.Enabled op) {rid : Nat} {cid : κ}
    (hcid : cid ∈ s.scidsAfter op rid) :
    s.Gives op rid cid ∨ cid ∈ s.scids rid ∧ ¬ Takes op rid cid := by
  have hdcid := h.initDcid rid cid
  cases op <;> grind [scidsAfter, Gives, Takes, Enabled]

theorem Inv.initDcidAfter_ne (h : Inv s) (he : s.Enabled op) {rid : Nat} {cid : κ}
    (hcid : cid ∈ s.scidsAfter op rid) : s.initDcidAfter op rid ≠ some cid := by
  have hdcid := h.initDcid rid cid
  cases op <;> grind [scidsAfter, initDcidAfter, Enabled]

variable [DecidableEq τ]

def step (s : CidRun κ τ) (op : CidOp κ) : Except Fault (CidRun κ τ) := do
  let run ← s.run.step (op.tableOp τ)
  .ok { run := run, scids := s.scidsAfter op, initDcid := s.initDcidAfter op }

/-- An endpoint without connections. -/
def machine (κ τ : Type) [DecidableEq κ] [DecidableEq τ] :
    Machine (CidRun κ τ) (CidOp κ) Fault where
  initial s := s = {}
  enabled := Enabled
  step := step

instance (s : CidRun κ τ) (op : CidOp κ) : Decidable ((machine κ τ).enabled s op) :=
  inferInstanceAs (Decidable (s.Enabled op))

/-- Every operation does to the ids what `Gives` and `Takes` say. -/
theorem Inv.cidStep (h : Inv s) (he : s.Enabled op) :
    ∃ run, s.run.step (op.tableOp τ) = .ok run ∧
      CidStep (s.Gives op) (Takes op) s.tables run.tables := by
  have hrid := h.run.tables.fresh (s.tables.nextRid + 1) (by unfold tables; omega)
  cases op with
  | connect cid =>
    obtain ⟨hok, -⟩ := attempt_first he hrid
    exact ⟨{ s.run with tables := s.tables.added cid },
      by rw [CidOp.tableOp, TableRun.step, hok, ok_bind], cidStep_added h.agree he hrid⟩
  | accept initDcid cid =>
    obtain ⟨-, hok⟩ := attempt_first he.1 hrid
    exact ⟨{ s.run with tables := s.tables.added cid },
      by rw [CidOp.tableOp, TableRun.step, hok, ok_bind]; rfl, cidStep_added h.agree he.1 hrid⟩
  | issue rid cid =>
    obtain ⟨c, hlive, heq⟩ := TableRun.onConn_eq
      (fun c => s.run.tables.associateCid cid rid c false) he.1
    exact ⟨_, heq, cidStep_associateCid h.agree hlive false he.2.1⟩
  | retire rid cid =>
    have hcid := h.scids rid cid he
    obtain ⟨c, hlive, heq⟩ := TableRun.onConn_eq
      (fun c => s.run.tables.dissociateCid cid rid c) hcid.getConn_ne
    exact ⟨_, heq, cidStep_dissociateCid h.agree hlive ((associated_iff hlive cid).mp hcid)⟩
  | initialDcid rid cid =>
    obtain ⟨c, hlive, heq⟩ := TableRun.onConn_eq
      (fun c => s.run.tables.associateCid cid rid c true) he.1
    refine ⟨_, heq, ?_⟩
    cases hcid : s.tables.connLookup cid with
    | none =>
      have hgives : s.Gives (.initialDcid rid cid) = fun r k => r = rid ∧ k = cid := by
        funext r k
        simp [Gives, hcid]
      rw [hgives]
      exact cidStep_associateCid h.agree hlive true hcid
    | some other =>
      have hgives : s.Gives (.initialDcid rid cid) = fun _ _ => False := by
        funext r k
        simp [Gives, hcid]
      rw [hgives, associateCid_of_some hcid]
      exact .refl h.agree fun _ _ hfalse => hfalse.elim
  | handshakeCompleted rid cid =>
    obtain ⟨c, hlive, heq⟩ := TableRun.onConn_eq
      (fun c => s.run.tables.serverHandshakeCompleted cid rid c) he.1
    refine ⟨_, heq, ?_⟩
    unfold serverHandshakeCompleted
    split_ifs with hcid
    · exact cidStep_dissociateCid h.agree hlive hcid
    · refine .refl h.agree ?_
      rintro r k ⟨rfl, rfl⟩
      exact mt (associated_iff hlive k).mp hcid
  | fetch cid => exact ⟨_, rfl, cidStep_fetchAssociatedConn h.agree cid⟩
  | delete rid =>
    obtain ⟨c, hlive, heq⟩ := TableRun.onConn_eq
      (fun c => s.run.tables.deleteConnection rid c) he
    exact ⟨_, heq, cidStep_deleteConnection h.agree hlive⟩

theorem Inv.step (h : Inv s) (he : s.Enabled op) :
    ∃ t, s.step op = .ok t ∧ Inv t ∧ CidStep (s.Gives op) (Takes op) s.tables t.tables := by
  obtain ⟨run, hok, hcids⟩ := h.cidStep he
  obtain ⟨run', hok', hinv⟩ := h.run.step (h.enabled he)
  obtain rfl : run' = run := Except.ok.inj (hok'.symm.trans hok)
  refine ⟨_, by rw [CidRun.step, hok, ok_bind], ⟨hinv, hcids.agree h.agree, ?_, ?_⟩, hcids⟩
  · intro rid cid hcid
    refine (hcids.associated rid cid).mpr ?_
    exact (h.mem_scidsAfter he hcid).imp_right fun hkept =>
      ⟨h.scids rid cid hkept.1, hkept.2⟩
  · intro rid cid hcid
    exact h.initDcidAfter_ne he hcid

theorem inductive_inv : (machine κ τ).Inductive Inv where
  initial s hs := by
    subst hs
    refine ⟨TableRun.inductive_inv.initial _ rfl, ⟨?_, ?_⟩, by simp, by simp⟩
    · simp [Tables.Associated, Live]
    · simp
  step s op h he := by
    obtain ⟨t, ht, hinv, -⟩ := h.step he
    exact ⟨t, ht, hinv⟩

/-- The entries that name a connection are its ids, so that no two connections have the same and
none names a connection that is gone. Whatever id a client chooses, an entry stays until its own
connection retires the id, completes its handshake with it or is deleted, and never comes to name
another one. The remembered lookup gives what both maps give. -/
theorem cids_agree (h : (machine κ τ).Reachable s) :
    (∀ cid rid, s.tables.connLookup cid = some rid ↔
      ∃ c, s.tables.Live rid c ∧ cid ∈ c.associatedCids) ∧
    (∀ rid rid' c c', rid ≠ rid' → s.tables.Live rid c → s.tables.Live rid' c' →
      c.associatedCids.Disjoint c'.associatedCids) ∧
    (∀ op, s.Enabled op → ∃ t, s.step op = .ok t ∧
      ∀ cid rid, s.tables.connLookup cid = some rid →
        t.tables.connLookup cid = some rid ∨ t.tables.connLookup cid = none ∧
          (op = .retire rid cid ∨ op = .handshakeCompleted rid cid ∨ op = .delete rid)) ∧
    ∀ cid, (s.tables.fetchAssociatedConn cid).1 = s.tables.getConnByCid cid := by
  have hinv := inductive_inv.reachable h
  have hentry := hinv.agree.entry
  refine ⟨hentry, ?_, ?_, fetchAssociatedConn_fst hinv.agree⟩
  · intro rid rid' c c' hne hlive hlive' cid hcid hcid'
    have hrid := (hentry cid rid).mpr ⟨c, hlive, hcid⟩
    have hrid' := (hentry cid rid').mpr ⟨c', hlive', hcid'⟩
    exact hne (Option.some.inj (hrid.symm.trans hrid'))
  · intro op he
    obtain ⟨t, ht, -, hcids⟩ := hinv.step he
    exact ⟨t, ht, fun cid rid => entry_after hcids⟩

/-- A client chooses the id of a connection that is there, and completes its handshake. -/
theorem cids_agree_chosen :
    ∃ s : CidRun Nat Nat, (machine Nat Nat).Reachable s ∧ s.initDcid 2 = some 7 ∧
      s.tables.lastLookup = some (7, 1) ∧ (s.tables.fetchAssociatedConn 7).1 = some 1 ∧
      ∃ c, s.tables.Live 1 c ∧ 7 ∈ c.associatedCids := by
  have hrun : ((machine Nat Nat).run {} [.connect 7, .accept (some 7) 8, .initialDcid 2 7,
      .fetch 7, .handshakeCompleted 2 7]).map (fun s => (s.initDcid 2, s.tables.lastLookup,
        s.tables.connLookup 7, s.tables.getConnByCid 7)) =
      some (some 7, some (7, 1), some 1, some 1) := by decide
  obtain ⟨s, hs, hview⟩ := Option.map_eq_some_iff.mp hrun
  simp only [Prod.mk.injEq] at hview
  obtain ⟨hchosen, hlast, hentry, hfound⟩ := hview
  have hreach : (machine Nat Nat).Reachable s := Machine.Reachable.run (.initial rfl) hs
  obtain ⟨hagree, -, -, hfetch⟩ := cids_agree hreach
  exact ⟨s, hreach, hchosen, hlast, (hfetch 7).trans hfound, (hagree 7 1).mp hentry⟩

end CidRun

end Libquic
