import Libquic.Connection.CloseAll

/-!
# Back-pointers

Which streams point to the connection: those in a container, and the strays. A stray is a
stream that the application had closed before it left its container, one that was turned
down by the application, or a `BTRequestStream`.
-/
namespace Libquic

open Lib

namespace StreamConn

variable {x y z : StreamConn} {r ref : Nat} {D D' E : Finset Nat}

/-! ## The invariant -/

/-- What is known of one object, when those in `D` are closed but may still be stored. -/
structure ObjInv (x : StreamConn) (D : Finset Nat) (r : Nat) : Prop where
  conn : (x.objs r).conn = true ↔ r ∈ x.stored ∧ r ∉ D ∨ r ∈ x.strays
  strays : r ∈ x.strays → r ∈ x.stored → r ∈ D
  fresh : r ∈ x.stored → r ∉ D →
    (x.objs r).closedCalls = 0 ∧ (x.objs r).isClosing = (x.objs r).appClosed

/-- The objects in `E` are being made. -/
structure Inv (D E : Finset Nat) (x : StreamConn) : Prop where
  wf : x.Wf
  lt : ∀ r ∈ D, r < x.count
  objs : ∀ r < x.count, r ∉ E → ObjInv x D r

theorem ObjInv.kept (h : ObjInv x D r) (hobj : Kept (x.objs r) (y.objs r))
    (hstored : r ∈ y.stored ↔ r ∈ x.stored) (hstrays : r ∈ y.strays ↔ r ∈ x.strays)
    (hD : r ∈ D' ↔ r ∈ D) : ObjInv y D' r := by
  refine ⟨?_, ?_, fun hin hnot => ?_⟩
  · rw [hstored, hstrays, hD, ← h.conn]
    rcases hobj with heq | ⟨-, heq⟩ <;> rw [heq]
  · rw [hstored, hstrays, hD]
    exact h.strays
  · obtain ⟨hruns, hclosing⟩ := h.fresh (hstored.mp hin) (mt hD.mpr hnot)
    rcases hobj with heq | ⟨-, heq⟩ <;> rw [heq]
    · exact ⟨hruns, hclosing⟩
    · exact ⟨hruns, rfl⟩

/-- A new object, wherever it ended up. -/
theorem Grows.objInv (h : Grows x y) (hx : x.Wf) (hD : r ∉ D) (hle : x.count ≤ r)
    (hlt : r < y.count) : ObjInv y D r := by
  cases hended : x.ended with
  | true =>
    obtain ⟨hsame, hnew⟩ := h.refused hended
    have hnot : r ∉ y.stored := fun hin =>
      absurd (hx.lt r (hsame.stored ▸ hin)) (Nat.not_lt.mpr hle)
    have hr := hnew r hle hlt
    exact ⟨by simp [hr.conn, hnot], fun _ hin => absurd hin hnot, fun hin => absurd hin hnot⟩
  | false =>
    have hr := h.live hended r hle hlt
    exact ⟨by simp [hr.conn, hr.stored, hD], fun hin => absurd hin hr.strays,
      fun _ _ => ⟨hr.calls, hr.closing⟩⟩

namespace Inv

theorem frame (h : Inv D E x) (hxy : Frame x y) : Inv D E y where
  wf := hxy.wf
  lt r hr := (h.lt r hr).trans_le hxy.count
  objs r hr hE := by
    by_cases hlt : r < x.count
    · exact (h.objs r hlt hE).kept (hxy.old r hlt) (hxy.stored r hlt) (hxy.strays r hlt) .rfl
    · exact hxy.objInv h.wf (fun hD => hlt (h.lt r hD)) (Nat.le_of_not_lt hlt) hr

theorem closeStored (h : Inv D ∅ x) (hstored : ref ∈ x.stored) (hnot : ref ∉ D) :
    Inv (insert ref D) ∅ (x.closeStored ref) := by
  have hlt := h.wf.lt ref hstored
  have hc := closeStored_closes h.wf hlt
  refine ⟨hc.wf, fun r hr => ?_, fun r hr _ => ?_⟩
  · rcases Finset.mem_insert.mp hr with rfl | hr
    · exact hlt.trans_le hc.count
    · exact (h.lt r hr).trans_le hc.count
  · by_cases hrx : r < x.count
    · have hobj := h.objs r hrx (by simp)
      by_cases hne : r = ref
      · subst hne
        have hstrays : r ∉ x.strays := fun hin => hnot (hobj.strays hin hstored)
        have hconn : (x.objs r).conn = true := hobj.conn.mpr (.inl ⟨hstored, hnot⟩)
        refine ⟨?_, fun _ _ => Finset.mem_insert_self r D,
          fun _ hin => absurd (Finset.mem_insert_self r D) hin⟩
        rw [hc.self, hc.strays r hlt]
        unfold objClosed
        cases (x.objs r).isClosing <;> cases (x.objs r).kind <;> simp [hstrays, hconn]
      · exact hobj.kept (hc.old r hrx hne) (hc.stored r hrx)
          ((hc.strays r hrx).trans (by simp [hne])) (by simp [hne])
    · refine hc.objInv h.wf (fun hin => ?_) (Nat.le_of_not_lt hrx) hr
      rcases Finset.mem_insert.mp hin with rfl | hin
      · exact hrx hlt
      · exact hrx (h.lt r hin)

/-- Streams in `D` may leave. -/
theorem leave (h : Inv D E x) (hxy : Leaves x y D) : Inv D E y := by
  have hcount : y.count = x.count := by rw [hxy.same]
  have hobjs : y.objs = x.objs := by rw [hxy.same]
  have hstrays : y.strays = x.strays := by rw [hxy.same]
  refine ⟨hxy.wf h.wf, fun r hr => hcount ▸ h.lt r hr, fun r hr hE => ?_⟩
  have hobj := h.objs r (hcount ▸ hr) hE
  refine ⟨?_, fun hin hs => hobj.strays (hstrays ▸ hin) (hxy.stored.subset hs),
    fun hs hD => hobjs ▸ hobj.fresh (hxy.stored.subset hs) hD⟩
  rw [hobjs, hstrays, hobj.conn]
  exact or_congr_left (and_congr_left fun hD => ⟨fun hs => hxy.left r hs hD, (hxy.stored.subset ·)⟩)

/-- Streams in `D` that have left need no longer be mentioned. -/
theorem forget (h : Inv D E x) (hD : ∀ r ∈ x.stored, r ∉ D) : Inv ∅ E x where
  wf := h.wf
  lt := by simp
  objs r hr hE := by
    have hobj := h.objs r hr hE
    refine ⟨?_, fun hin hs => absurd (hobj.strays hin hs) (hD r hs),
      fun hs _ => hobj.fresh hs (hD r hs)⟩
    rw [hobj.conn]
    have := hD r
    simp only [Finset.notMem_empty, not_false_eq_true, and_true]
    tauto

end Inv

/-! ## The operations -/

/-- Streams may change containers. -/
theorem Inv.moved (h : Inv D E x) (hobjs : y.objs = x.objs) (hcount : y.count = x.count)
    (hstrays : y.strays = x.strays) (hperm : y.stored.Perm x.stored) (hkeys : y.KeysFree) :
    Inv D E y where
  wf := ⟨hkeys, hperm.nodup_iff.mpr h.wf.nodup,
    fun r hr => hcount ▸ h.wf.lt r (hperm.mem_iff.mp hr),
    fun r hr => hcount ▸ h.wf.strays r (hstrays ▸ hr)⟩
  lt r hr := hcount ▸ h.lt r hr
  objs r hr hE := (h.objs r (hcount ▸ hr) hE).kept (.inl (by rw [hobjs])) hperm.mem_iff
    (by rw [hstrays]) .rfl

theorem checkPendingStreams_inv {available : Nat} (h : Inv D E x) :
    Inv D E (checkPendingStreams available x) := by
  induction available generalizing x with
  | zero => exact h
  | succ available ih =>
    unfold checkPendingStreams
    split
    · exact h
    · rename_i ref rest hpending
      split_ifs
      · exact h
      · have hfree : ∀ entry ∈ x.streams, entry.1 ≠ x.nextStreamId := fun entry hmem heq =>
          (h.wf.local_ entry hmem (by rw [heq])).ne heq
        refine ih (h.moved rfl rfl rfl ?_ ?_)
        · simp only [stored, hpending]
          have hinsert : ((OrderedMap.insert x.nextStreamId ref x.streams).map Prod.snd).Perm
            (ref :: x.streams.map Prod.snd) := (OrderedMap.insert_perm hfree).map Prod.snd
          exact ((hinsert.append_right _).append_right _).trans List.perm_middle.symm
        · exact h.wf.insert_streams hfree rfl (.inr ⟨rfl, rfl⟩) (.refl _) rfl

theorem streamClosed_inv {id : Int} (h : Inv ∅ ∅ x) : Inv ∅ ∅ (x.streamClosed id) := by
  by_cases hmem : ∃ ref, (id, ref) ∈ x.streams
  · obtain ⟨ref, hmem⟩ := hmem
    have hstored : ref ∈ x.stored := by
      simp only [stored, List.mem_append, List.mem_map]
      exact .inl (.inl ⟨_, hmem, rfl⟩)
    have hclosed := h.closeStored hstored (by simp)
    have hmem' := (closeStored_closes h.wf (h.wf.lt ref hstored)).streams _ hmem
    rw [streamClosed_of_mem h.wf hmem]
    refine (hclosed.leave (erase_leaves hclosed.wf hmem' (by simp))).forget fun r hr hD => ?_
    obtain rfl : r = ref := by simpa using hD
    exact notMem_stored_erase hclosed.wf hmem' hr
  · rw [streamClosed_of_notMem hmem]
    exact h

/-- The stream being made is put into `_streams`. -/
theorem Inv.accept {id : Int} (h : Inv ∅ {ref} x) (hlt : ref < x.count)
    (hfree : ∀ entry ∈ x.streams, entry.1 ≠ id) (hid : id % 4 ≠ x.nextStreamId % 4)
    (hstored : ref ∉ x.stored) (hstrays : ref ∉ x.strays) {obj : StreamObj}
    (hobj : Kept obj (x.objs ref)) (hnew : obj.conn = true ∧ obj.isClosing = obj.appClosed)
    (hruns : obj.closedCalls = 0) :
    Inv ∅ ∅ { x with streams := OrderedMap.insert id ref x.streams } := by
  have hperm : (stored { x with streams := OrderedMap.insert id ref x.streams }).Perm
      (ref :: x.stored) :=
    (((OrderedMap.insert_perm hfree).map Prod.snd).append_right _).append_right _
  refine ⟨⟨h.wf.insert_streams hfree rfl (.inl ⟨rfl, hid⟩) (.refl _) rfl, ?_, ?_, h.wf.strays⟩,
    by simp, fun r hr _ => ?_⟩
  · exact hperm.nodup_iff.mpr (List.nodup_cons.mpr ⟨hstored, h.wf.nodup⟩)
  · intro r hr
    rcases List.mem_cons.mp (hperm.mem_iff.mp hr) with rfl | hr
    · exact hlt
    · exact h.wf.lt r hr
  · by_cases hne : r = ref
    · subst hne
      refine ⟨?_, fun hin => absurd hin hstrays, fun _ _ => ?_⟩
      · rcases hobj with heq | ⟨-, heq⟩ <;> simp [heq, hnew, hperm.mem_iff]
      · rcases hobj with heq | ⟨-, heq⟩ <;> simp [heq, hnew, hruns]
    · exact (h.objs r hr (by simpa using hne)).kept (.inl rfl)
        (by rw [hperm.mem_iff]; simp [hne]) .rfl .rfl

/-- The stream being made is turned down. -/
theorem Inv.reject (h : Inv ∅ {ref} x) (hlt : ref < x.count) (hstored : ref ∉ x.stored)
    (hconn : (x.objs ref).conn = true) :
    Inv ∅ ∅ { x.close ref with strays := x.strays ++ [ref] } := by
  have hf := close_frame h.wf ref
  refine ⟨h.wf.congr ⟨rfl, rfl, rfl⟩ rfl rfl le_rfl fun r hr => ?_, by simp, fun r hr _ => ?_⟩
  · rcases List.mem_append.mp hr with hr | hr
    · exact h.wf.strays r hr
    · exact List.mem_singleton.mp hr ▸ hlt
  · by_cases hne : r = ref
    · subst hne
      refine ⟨?_, fun _ hin => absurd hin hstored, fun hin => absurd hin hstored⟩
      rcases hf.old r hlt with heq | ⟨-, heq⟩ <;> simp [heq, hconn]
    · exact (h.objs r hr (by simpa using hne)).kept (hf.old r hr) .rfl (by simp [hne]) .rfl

/-- A stream that the remote opened, before the application has seen it. -/
def announced (x : StreamConn) (id : Int) (kind : StreamKind) (onClose : Script) : StreamConn :=
  { x with
    nextIncomingStreamId := if id = x.nextIncomingStreamId then id + 4 else x.nextIncomingStreamId
    count := x.count + 1
    objs := Function.update x.objs x.count { kind := kind, onClose := onClose } }

theorem announced_inv (h : Inv ∅ ∅ x) (id : Int) (kind : StreamKind) (onClose : Script) :
    Inv ∅ {x.count} (x.announced id kind onClose) := by
  refine ⟨⟨?_, h.wf.nodup, fun r hr => (h.wf.lt r hr).trans (Nat.lt_succ_self _),
    fun r hr => (h.wf.strays r hr).trans (Nat.lt_succ_self _)⟩, by simp, fun r hr hE => ?_⟩
  · unfold announced
    split_ifs with hnext
    · subst hnext
      exact h.wf.take_incoming rfl rfl rfl h.wf.queued fun entry hmem => .inl hmem
    · exact h.wf.toKeysFree.congr rfl rfl rfl rfl
  · have hne : r ≠ x.count := by simpa using hE
    have hlt : r < x.count := Nat.lt_of_le_of_ne (Nat.lt_succ_iff.mp hr) hne
    exact (h.objs r hlt (by simp)).kept (.inl (Function.update_of_ne hne ..)) .rfl .rfl .rfl

theorem streamOpened_inv {id : Int} {kind : StreamKind} {onClose openCb : Script} {accept : Bool}
    (h : Inv ∅ ∅ x) (hid : id % 4 = x.nextIncomingStreamId % 4)
    (hfree : ∀ entry ∈ x.streams, entry.1 ≠ id) :
    Inv ∅ ∅ (x.streamOpened id kind onClose openCb accept) := by
  unfold streamOpened
  cases hfind : x.streamQueue.find? (·.1 = id) with
  | some entry =>
    obtain ⟨key, ref⟩ := entry
    obtain rfl : key = id := by simpa using List.find?_some hfind
    have hqueue := (OrderedMap.filter_perm h.wf.queued (List.mem_of_find?_eq_some hfind)).map Prod.snd
    refine h.moved rfl rfl rfl ?_ ?_
    · have hinsert : ((OrderedMap.insert key ref x.streams).map Prod.snd).Perm
          (ref :: x.streams.map Prod.snd) := (OrderedMap.insert_perm hfree).map Prod.snd
      refine List.Perm.append_right _ ((hinsert.append_right _).trans ?_)
      exact List.perm_middle.symm.trans (hqueue.symm.append_left _)
    · exact h.wf.insert_streams hfree rfl (.inl ⟨rfl, by rw [hid]; exact h.wf.sides⟩)
        List.filter_sublist rfl
  | none =>
    have h₁ := announced_inv h id kind onClose
    have hf := run_frame h₁.wf openCb
    have hz := h₁.frame hf
    have hlt : x.count < (x.announced id kind onClose).count := Nat.lt_succ_self _
    have hobj : Kept { kind := kind, onClose := onClose }
        ((run openCb (x.announced id kind onClose)).objs x.count) := by
      have hold := hf.old x.count hlt
      rwa [show (x.announced id kind onClose).objs x.count = _ from Function.update_self ..] at hold
    have hstored := mt (hf.stored x.count hlt).mp fun hin => (h.wf.lt _ hin).false
    have hstrays := mt (hf.strays x.count hlt).mp fun hin => (h.wf.strays _ hin).false
    cases accept with
    | true =>
      refine hz.accept (hlt.trans_le hf.count) (fun entry hentry heq => ?_) ?_ hstored hstrays
        hobj ⟨rfl, rfl⟩ rfl
      · rcases hf.sides.streams entry hentry with hentry | hentry
        · exact hfree entry hentry heq
        · exact h.wf.sides (hid.symm.trans (heq ▸ hentry))
      · rw [hid, hf.sides.next]
        exact h.wf.sides
    | false =>
      refine hz.reject (hlt.trans_le hf.count) hstored ?_
      rcases hobj with heq | ⟨-, heq⟩ <;> rw [heq]

theorem dropStreams_conn (h : ObjInv x ∅ r) :
    (x.dropStreams.objs r).conn = false ↔ r ∉ x.strays := by
  have hconn := h.conn
  have hstrays : r ∈ x.strays → r ∉ x.stored := fun hin hs => by simpa using h.strays hin hs
  by_cases hstored : r ∈ x.stored
  · simp only [dropStreams, hstored, if_true, true_iff]
    exact fun hin => hstrays hin hstored
  · simp only [dropStreams, hstored, if_false, false_and, false_or] at hconn ⊢
    rw [← hconn, Bool.not_eq_true]

theorem dropStreams_inv (h : Inv ∅ ∅ x) : Inv ∅ ∅ x.dropStreams := by
  have hwf := h.wf
  refine ⟨⟨⟨by simp [dropStreams], by simp [dropStreams], by simp [dropStreams],
    by simp [dropStreams], by simp [dropStreams], hwf.sides⟩, by simp [dropStreams, stored],
    by simp [dropStreams, stored], hwf.strays⟩, by simp, fun r hr _ => ?_⟩
  have hobj := h.objs r hr (by simp)
  refine ⟨?_, fun _ hin => ?_, fun hin => ?_⟩
  · have hconn : (x.dropStreams.objs r).conn = true ↔ r ∈ x.strays := by
      rw [← Bool.not_eq_false, dropStreams_conn hobj, not_not]
    rw [hconn]
    simp [dropStreams, stored]
  · simp [dropStreams, stored] at hin
  · simp [dropStreams, stored] at hin

theorem closeAllStreams_inv (h : Inv ∅ ∅ x) (hy : x.closeAllStreams = .ok y) : Inv ∅ ∅ y := by
  obtain ⟨D', hsweep⟩ := closeAllStreams_sweep (Q := fun D z => Inv D ∅ z)
    (fun D z r _ hr hD hz => hz.closeStored hr hD) (fun D z z' hl hz => hz.leave hl) h.wf h hy
  exact hsweep.holds.forget fun r hr hD => by simpa using hsweep.passed r hr hD

theorem marked_inv {ending : Ending} (h : Inv ∅ ∅ x) : Inv ∅ ∅ (x.marked ending) := by
  cases ending with
  | drop => exact h
  | close => exact h.moved rfl rfl rfl (.refl _) (h.wf.toKeysFree.congr rfl rfl rfl rfl)
  | drain => exact h.moved rfl rfl rfl (.refl _) (h.wf.toKeysFree.congr rfl rfl rfl rfl)

theorem step_inv {op : Op} (h : Inv ∅ ∅ x) (henabled : x.Enabled op) (hy : x.step op = .ok y) :
    Inv ∅ ∅ y := by
  cases op with
  | openStream kind onClose =>
    cases hy
    exact h.frame (openStream_makes (fun _ h => run_frame h onClose) h.wf kind onClose).toFrame
  | queueIncomingStream kind onClose =>
    cases hy
    exact h.frame
      (queueIncomingStream_makes (fun _ h => run_frame h onClose) h.wf kind onClose).toFrame
  | streamOpened id kind onClose openCb accept =>
    cases hy
    exact streamOpened_inv h henabled.1 henabled.2
  | close ref =>
    cases hy
    exact h.frame (close_frame h.wf ref)
  | streamClosed id =>
    cases hy
    exact streamClosed_inv h
  | extendMaxStreams more =>
    cases hy
    exact checkPendingStreams_inv
      (h.moved rfl rfl rfl (.refl _) (h.wf.toKeysFree.congr rfl rfl rfl rfl))
  | closeAllStreams ending => exact closeAllStreams_inv (marked_inv h) hy
  | deleteConnection =>
    cases hy
    exact dropStreams_inv (@marked_inv x .close h)

theorem initial_inv (h : machine.initial x) : Inv ∅ ∅ x := by
  obtain ⟨bidiLeft, rfl⟩ | ⟨bidiLeft, rfl⟩ := h
  · exact ⟨⟨⟨by simp, by simp, by simp, by simp, by simp, by simp⟩, by simp [stored],
      by simp [stored], by simp⟩, by simp, by simp⟩
  · exact ⟨⟨⟨by simp, by simp, by simp, by simp, by simp, by simp⟩, by simp [stored],
      by simp [stored], by simp⟩, by simp, by simp⟩

theorem reachable_inv (h : machine.Reachable x) : Inv ∅ ∅ x :=
  h.keep (fun _ => initial_inv) fun _ _ _ => step_inv

/-! ## Results -/

theorem ObjInv.held_iff (h : ObjInv x ∅ r) :
    ((x.objs r).conn = true → r ∈ x.stored) ↔ r ∉ x.strays := by
  have hstrays : r ∈ x.strays → r ∉ x.stored := fun hin hs => by simpa using h.strays hin hs
  rw [h.conn]
  simp only [Finset.notMem_empty, not_false_eq_true, and_true]
  tauto

/-- The streams that point to the connection are the ones that it holds, and
`delete_connection` leaves none that does, exactly as long as there are no strays. -/
theorem conn_points_to_held_iff_no_strays (h : machine.Reachable x) :
    ((∀ r < x.count, (x.objs r).conn = true → r ∈ x.stored) ↔ x.strays = []) ∧
    ((∀ r < x.count, (x.deleteConnection.objs r).conn = false) ∧
      x.deleteConnection.pseudoStream = false ∧ x.deleteConnection.dgrams = false ↔
      x.strays = []) := by
  have hinv := reachable_inv h
  have hstrays : (∀ r < x.count, r ∉ x.strays) ↔ x.strays = [] := by
    rw [List.eq_nil_iff_forall_not_mem]
    exact ⟨fun hnone r hr => hnone r (hinv.wf.strays r hr) hr, fun hnone r _ => hnone r⟩
  have hdelete (r : Nat) (hr : r < x.count) :
      (x.deleteConnection.objs r).conn = false ↔ r ∉ x.strays := by
    have hmarked := @marked_inv x .close hinv
    exact dropStreams_conn (hmarked.objs r hr (by simp))
  rw [← hstrays]
  refine ⟨forall₂_congr fun r hr => (hinv.objs r hr (by simp)).held_iff, ?_⟩
  rw [← forall₂_congr hdelete]
  exact and_iff_left ⟨rfl, rfl⟩

theorem conn_points_to_held_iff_no_strays_open :
    let x := openStream (run .done) .stream .done { bidiLeft := 1 }
    (∀ r < x.count, (x.objs r).conn = true → r ∈ x.stored) ∧
      ∀ r < x.count, (x.deleteConnection.objs r).conn = false := by
  intro x
  have hreach : machine.Reachable x :=
    .step (i := .openStream .stream .done) (.initial (.inl ⟨1, rfl⟩)) trivial rfl
  have h := conn_points_to_held_iff_no_strays hreach
  exact ⟨h.1.mpr rfl, (h.2.mpr rfl).1⟩

instance (x : StreamConn) : ∀ op, Decidable (machine.enabled x op)
  | .streamOpened id .. => inferInstanceAs
      (Decidable (id % 4 = x.nextIncomingStreamId % 4 ∧ ∀ entry ∈ x.streams, entry.1 ≠ id))
  | .close ref => inferInstanceAs (Decidable (ref < x.count))
  | .openStream .. => .isTrue trivial
  | .queueIncomingStream .. => .isTrue trivial
  | .streamClosed _ => .isTrue trivial
  | .extendMaxStreams _ => .isTrue trivial
  | .closeAllStreams _ => .isTrue trivial
  | .deleteConnection => .isTrue trivial

/-- The first stream of the run points to the connection that no longer holds it, and still
does when the connection is deleted. -/
def LeavesPointer (ops : List Op) : Prop :=
  ∃ x, machine.run { bidiLeft := 1 } ops = some x ∧ machine.Reachable x ∧ x.stored = [] ∧
    (x.objs 0).conn = true ∧ (x.deleteConnection.objs 0).conn = true

theorem LeavesPointer.of_run {ops : List Op} (hrun : machine.run { bidiLeft := 1 } ops = some x)
    (hstored : x.stored = []) (hconn : (x.objs 0).conn = true)
    (hdelete : (x.deleteConnection.objs 0).conn = true) : LeavesPointer ops :=
  ⟨x, hrun, Machine.Reachable.run (.initial (.inl ⟨1, rfl⟩)) hrun, hstored, hconn, hdelete⟩

/-- A stream that the application closes before the remote does, a stream that is turned down,
and a `BTRequestStream`. -/
theorem closed_stream_points_to_deleted_connection :
    LeavesPointer [.openStream .stream .done, .close 0, .streamClosed 0] ∧
    LeavesPointer [.streamOpened 1 .stream .done .done false] ∧
    LeavesPointer [.openStream .btRequest .done, .streamClosed 0] :=
  ⟨.of_run rfl rfl rfl rfl, .of_run rfl rfl rfl rfl, .of_run rfl rfl rfl rfl⟩

end StreamConn

end Libquic
