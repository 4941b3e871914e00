import Libquic.Connection.StreamsSpec

/-!
# The loops of `close_all_streams`

Each stream in a container is closed once, whatever the callbacks do, and a stream leaves its
container only after that. `closeAllStreams_rule` reduces what holds of the whole to what
holds of closing one stream and of taking closed streams out of their containers.

Callbacks add streams while the loops run. A stream that is closed makes room for those that
its callback adds, so that `remaining` gets smaller.
-/
namespace Libquic

open Lib

namespace StreamConn

variable {x y z : StreamConn} {r ref : Nat} {D : Finset Nat}

/-! ## How many streams callbacks add -/

/-- A stream counts for itself and for those that its callback can make. -/
def streamWork (x : StreamConn) (r : Nat) : Nat := (x.objs r).onClose.size + 1

/-- The streams in containers, without those in `D`. -/
def remaining (x : StreamConn) (D : Finset Nat) : Nat :=
  ∑ r ∈ x.stored.toFinset with r ∉ D, x.streamWork r

/-- The streams in containers, from the `n`-th object on. -/
def made (x : StreamConn) (n : Nat) : Nat := ∑ r ∈ x.stored.toFinset with n ≤ r, x.streamWork r

theorem Kept.onClose {o p : StreamObj} (h : Kept o p) : p.onClose = o.onClose := by
  rcases h with rfl | ⟨-, rfl⟩ <;> rfl

theorem Closes.onClose (h : Closes x y ref) (hr : r < x.count) :
    (y.objs r).onClose = (x.objs r).onClose := by
  by_cases hne : r = ref
  · subst hne
    rw [h.self, objClosed]
    split_ifs <;> rfl
  · exact (h.old r hr hne).onClose

/-- What is in the containers was there before or is new. -/
theorem Grows.sum_stored (h : Grows x y) (hx : x.Wf)
    (hobj : ∀ r < x.count, (y.objs r).onClose = (x.objs r).onClose) (p : Nat → Prop)
    [DecidablePred p] :
    ∑ r ∈ y.stored.toFinset with p r, y.streamWork r =
      (∑ r ∈ x.stored.toFinset with p r, x.streamWork r) +
        ∑ r ∈ y.stored.toFinset with p r ∧ x.count ≤ r, y.streamWork r := by
  have hold : {r ∈ {r ∈ y.stored.toFinset | p r} | ¬x.count ≤ r} =
      {r ∈ x.stored.toFinset | p r} := by
    ext r
    simp only [Finset.mem_filter, List.mem_toFinset]
    have hlt := hx.lt r
    have hiff := h.stored r
    grind
  have hsum : ∑ r ∈ x.stored.toFinset with p r, y.streamWork r =
      ∑ r ∈ x.stored.toFinset with p r, x.streamWork r := by
    refine Finset.sum_congr rfl fun r hr => ?_
    have hmem : r ∈ x.stored := by simpa using (Finset.mem_filter.mp hr).1
    rw [streamWork, streamWork, hobj r (hx.lt r hmem)]
  rw [← Finset.sum_filter_not_add_sum_filter _ (x.count ≤ ·), hold, hsum, Finset.filter_filter]

theorem Frame.made_add (h : Frame y z) (hy : y.Wf) {n : Nat} (hn : n ≤ y.count) :
    z.made n = y.made n + z.made y.count := by
  rw [made, h.sum_stored hy (fun r hr => (h.old r hr).onClose)]
  congr 2
  ext r
  simp only [Finset.mem_filter]
  constructor
  · exact fun ⟨hmem, _, hr⟩ => ⟨hmem, hr⟩
  · exact fun ⟨hmem, hr⟩ => ⟨hmem, hn.trans hr, hr⟩

theorem Makes.made_le {onClose : Script} (h : Makes x y onClose) :
    y.made x.count ≤ onClose.size + 1 := by
  by_cases hmem : x.count ∈ y.stored
  · have hsub : {r ∈ y.stored.toFinset | x.count ≤ r} ⊆ {x.count} := by
      intro r hr
      simp only [Finset.mem_filter, List.mem_toFinset] at hr
      exact Finset.mem_singleton.mpr (h.only r hr.1 hr.2).1
    calc y.made x.count ≤ ∑ r ∈ {x.count}, y.streamWork r :=
          Finset.sum_le_sum_of_subset hsub
      _ = onClose.size + 1 := by rw [Finset.sum_singleton, streamWork, (h.only _ hmem le_rfl).2]
  · have hempty : {r ∈ y.stored.toFinset | x.count ≤ r} = ∅ := by
      refine Finset.filter_eq_empty_iff.mpr fun r hr hle => hmem ?_
      have hr : r ∈ y.stored := List.mem_toFinset.mp hr
      exact (h.only r hr hle).1 ▸ hr
    rw [made, hempty, Finset.sum_empty]
    exact Nat.zero_le _

theorem made_eq_zero (h : ∀ r ∈ x.stored, r < x.count) : x.made x.count = 0 := by
  refine Finset.sum_eq_zero fun r hr => ?_
  simp only [Finset.mem_filter, List.mem_toFinset] at hr
  exact absurd (h r hr.1) (Nat.not_lt.mpr hr.2)

/-- A call, and then the rest of the script. -/
theorem Makes.run_made {onClose next : Script} (h : Makes x y onClose)
    (hnext : (run next y).made y.count ≤ next.size) :
    (run next y).made x.count ≤ onClose.size + next.size + 1 := by
  have hadd := (run_frame h.wf next).made_add h.wf h.count
  have hmade := h.made_le
  omega

theorem run_made (hx : x.Wf) (s : Script) : (run s x).made x.count ≤ s.size := by
  induction s generalizing x with
  | done => exact (made_eq_zero hx.lt).le
  | openStream kind onClose next _ ih =>
    have h := openStream_makes (fun _ h => run_frame h onClose) hx kind onClose
    exact h.run_made (ih h.wf)
  | queueIncomingStream kind onClose next _ ih =>
    have h := queueIncomingStream_makes (fun _ h => run_frame h onClose) hx kind onClose
    exact h.run_made (ih h.wf)
  | closeStream ref next ih =>
    rw [run]
    split_ifs
    · exact ih (close_frame hx ref).wf
    · exact ih hx

theorem afterClosed_made (n : Nat) : (x.afterClosed ref).made n = x.made n := by
  have hwork (r : Nat) : (x.afterClosed ref).streamWork r = x.streamWork r := by
    by_cases hr : r = ref
    · rw [streamWork, hr, afterClosed_objs_self, streamWork]
    · rw [streamWork, afterClosed_objs_of_ne hr, streamWork]
  simp only [made, hwork, afterClosed_sameStored.stored]

theorem closeStored_made (hx : x.Wf) (hr : ref < x.count) :
    (x.closeStored ref).made x.count ≤ (x.objs ref).onClose.size := by
  cases hclosing : (x.objs ref).isClosing with
  | true =>
    rw [closeStored, streamExecuteClose_of_closing _ hclosing]
    exact (made_eq_zero hx.lt).le.trans (Nat.zero_le _)
  | false =>
    have hf := run_frame (hx.beforeClosed hr) (x.objs ref).onClose
    rw [closeStored, streamExecuteClose_eq hf hr hclosing, afterClosed_made]
    exact run_made (hx.beforeClosed hr) _

/-- A stream that is closed makes room for those that its callback adds. -/
theorem closeStored_remaining (hx : x.Wf) (hr : ref ∈ x.stored) (hD : ref ∉ D) :
    (x.closeStored ref).remaining (insert ref D) < x.remaining D := by
  have hcloses := closeStored_closes hx (hx.lt ref hr)
  have hold : {r ∈ x.stored.toFinset | r ∉ insert ref D} =
      Finset.erase {r ∈ x.stored.toFinset | r ∉ D} ref := by
    grind
  have hmem : ref ∈ ({r ∈ x.stored.toFinset | r ∉ D} : Finset Nat) := by simp [hr, hD]
  have hnew : ∑ r ∈ (x.closeStored ref).stored.toFinset with r ∉ insert ref D ∧ x.count ≤ r,
      (x.closeStored ref).streamWork r ≤ (x.closeStored ref).made x.count :=
    Finset.sum_le_sum_of_subset fun r hr => by
      simp only [Finset.mem_filter] at hr ⊢
      exact ⟨hr.1, hr.2.2⟩
  have hmade := closeStored_made hx (hx.lt ref hr)
  have hsum := Finset.add_sum_erase _ x.streamWork hmem
  rw [remaining, hcloses.sum_stored hx (fun r hr => hcloses.onClose hr), hold, remaining]
  rw [streamWork] at hsum
  omega

theorem remaining_lt_work (hx : x.Wf) : x.remaining ∅ < x.work := by
  have hsub : {r ∈ x.stored.toFinset | r ∉ (∅ : Finset Nat)} ⊆ Finset.range x.count := by
    intro r hr
    simp only [Finset.mem_filter, List.mem_toFinset] at hr
    exact Finset.mem_range.mpr (hx.lt r hr.1)
  exact Nat.lt_succ_of_le (Finset.sum_le_sum_of_subset hsub)

/-! ## The rule for the loops -/

/-- Some of the streams in `D` left their containers. -/
structure Leaves (x y : StreamConn) (D : Finset Nat) : Prop where
  same : y = { x with
    streams := y.streams, streamQueue := y.streamQueue, pendingStreams := y.pendingStreams }
  streams : y.streams.Sublist x.streams
  queue : y.streamQueue.Sublist x.streamQueue
  pending : y.pendingStreams.Sublist x.pendingStreams
  left : ∀ r ∈ x.stored, r ∉ D → r ∈ y.stored

theorem Leaves.stored (h : Leaves x y D) : y.stored.Sublist x.stored :=
  ((h.streams.map _).append (h.queue.map _)).append h.pending

theorem Leaves.wf (h : Leaves x y D) (hx : x.Wf) : y.Wf := by
  have hsame := h.same
  refine ⟨⟨hx.streams.sublist (h.streams.map _), hx.queued.sublist (h.queue.map _),
    fun entry hmem => ?_, fun entry hmem => ?_,
    fun entry hmem => ?_, ?_⟩, hx.nodup.sublist h.stored, fun r hr => ?_, ?_⟩
  · rw [hsame]
    exact hx.local_ entry (h.streams.subset hmem)
  · rw [hsame]
    exact hx.queue entry (h.queue.subset hmem)
  · rw [hsame]
    exact hx.remote entry (h.queue.subset hmem)
  · rw [hsame]
    exact hx.sides
  · rw [hsame]
    exact hx.lt r (h.stored.subset hr)
  · rw [hsame]
    exact hx.strays

/-- The queue can be emptied of streams that are closed. -/
theorem leaves_clearQueue (h : ∀ r ∈ x.streamQueue.map Prod.snd, r ∈ D) :
    Leaves x { x with streamQueue := [] } D := by
  refine ⟨rfl, .refl _, List.nil_sublist _, .refl _, fun r hr hD => ?_⟩
  have hnot : r ∉ x.streamQueue.map Prod.snd := mt (h r) hD
  simp only [stored, List.mem_append] at hr ⊢
  tauto

theorem leaves_clearPending (h : ∀ r ∈ x.pendingStreams, r ∈ D) :
    Leaves x { x with pendingStreams := [] } D := by
  refine ⟨rfl, .refl _, .refl _, List.nil_sublist _, fun r hr hD => ?_⟩
  have hnot : r ∉ x.pendingStreams := mt (h r) hD
  simp only [stored, List.mem_append] at hr ⊢
  tauto

theorem Leaves.remaining_le (h : Leaves x y D) : y.remaining D ≤ x.remaining D := by
  have hwork (r : Nat) : y.streamWork r = x.streamWork r := by rw [h.same]; rfl
  simp only [remaining, hwork]
  refine Finset.sum_le_sum_of_subset (Finset.filter_subset_filter _ fun r hr => ?_)
  simp only [List.mem_toFinset] at hr ⊢
  exact h.stored.subset hr

/-- The connection without one entry of `_streams`. -/
def erase (x : StreamConn) (id : Int) : StreamConn :=
  { x with streams := x.streams.filter (·.1 ≠ id) }

theorem erase_leaves {id : Int} (hx : x.Wf) (hmem : (id, ref) ∈ x.streams) (hD : ref ∈ D) :
    Leaves x (x.erase id) D where
  same := rfl
  streams := List.filter_sublist
  queue := .refl _
  pending := .refl _
  left r hr hnot := by
    simp only [stored, List.mem_append, List.mem_map] at hr ⊢
    refine hr.imp_left (Or.imp_left ?_)
    rintro ⟨entry, hentry, heq⟩
    refine ⟨entry, List.mem_filter.mpr ⟨hentry, decide_eq_true fun hid => hnot ?_⟩, heq⟩
    obtain rfl : entry = (id, ref) := List.inj_on_of_nodup_map hx.streams hentry hmem hid
    exact heq ▸ hD

theorem notMem_stored_erase {id : Int} (hx : x.Wf) (hmem : (id, ref) ∈ x.streams) :
    ref ∉ (x.erase id).stored := by
  have hnodup := hx.nodup
  have hin : ref ∈ x.streams.map Prod.snd := List.mem_map.mpr ⟨_, hmem, rfl⟩
  rw [stored, List.append_assoc, List.nodup_append] at hnodup
  rw [stored, List.append_assoc, List.mem_append]
  rintro (hr | hr)
  · obtain ⟨entry, hentry, heq⟩ := List.mem_map.mp hr
    obtain ⟨hentry, hid⟩ := List.mem_filter.mp hentry
    obtain rfl : entry = (id, ref) := List.inj_on_of_nodup_map hnodup.1 hentry hmem heq
    simp at hid
  · exact hnodup.2.2 ref hin ref hr rfl

theorem streamClosed_of_mem {id : Int} (hx : x.Wf) (hmem : (id, ref) ∈ x.streams) :
    x.streamClosed id = (x.closeStored ref).erase id := by
  unfold streamClosed
  cases hfind : x.streams.find? (·.1 = id) with
  | none =>
    have hnone := List.find?_eq_none.mp hfind _ hmem
    simp at hnone
  | some entry =>
    have hid : entry.1 = id := by simpa using List.find?_some hfind
    obtain rfl : entry = (id, ref) :=
      List.inj_on_of_nodup_map hx.streams (List.mem_of_find?_eq_some hfind) hmem hid
    rfl

theorem streamClosed_of_notMem {id : Int} (h : ¬∃ ref, (id, ref) ∈ x.streams) :
    x.streamClosed id = x := by
  have hnone : x.streams.find? (·.1 = id) = none := by
    refine List.find?_eq_none.mpr fun entry hentry heq => h ⟨entry.2, ?_⟩
    exact of_decide_eq_true heq ▸ hentry
  rw [streamClosed, hnone]

/-- Where the loops are: the streams in `D` are closed, and of these the ones in `passed` are
still in their containers. -/
structure Sweep (Q : Finset Nat → StreamConn → Prop) (D : Finset Nat) (passed : List Nat)
    (x : StreamConn) : Prop where
  wf : x.Wf
  holds : Q D x
  lt : ∀ r ∈ D, r < x.count
  sub : ∀ r ∈ passed, r ∈ D
  passed : ∀ r ∈ x.stored, r ∈ D → r ∈ passed

/-- Somewhere on the way a callback adds to the containers. -/
def Adds (Q : Finset Nat → StreamConn → Prop) : Prop :=
  ∃ D x r, Wf x ∧ Q D x ∧ r ∈ x.stored ∧ r ∉ D ∧ ¬SameStored x (x.closeStored r)

theorem Wf.nodup_queue (h : x.Wf) : (x.streamQueue.map Prod.snd).Nodup :=
  h.nodup.of_append_left.of_append_right

section Rule

variable {Q : Finset Nat → StreamConn → Prop} {passed rest : List Nat} {fuel : Nat}
  (hclose : ∀ D z r, z.Wf → r ∈ z.stored → r ∉ D → Q D z → Q (insert r D) (z.closeStored r))
  (hleave : ∀ D z z', Leaves z z' D → Q D z → Q D z')

include hclose in
theorem Sweep.closeStored (h : Sweep Q D passed x) (hr : ref ∈ x.stored) (hnot : ref ∉ passed) :
    Sweep Q (insert ref D) (passed ++ [ref]) (x.closeStored ref) ∧
      (x.closeStored ref).remaining (insert ref D) < x.remaining D := by
  have hD : ref ∉ D := fun hmem => hnot (h.passed ref hr hmem)
  have hlt := h.wf.lt ref hr
  have hcloses := closeStored_closes h.wf hlt
  refine ⟨⟨hcloses.wf, hclose D x ref h.wf hr hD h.holds, ?_, ?_, ?_⟩,
    closeStored_remaining h.wf hr hD⟩
  · intro r hmem
    rcases Finset.mem_insert.mp hmem with rfl | hmem
    · exact hlt.trans_le hcloses.count
    · exact (h.lt r hmem).trans_le hcloses.count
  · intro r hmem
    rcases List.mem_append.mp hmem with hmem | hmem
    · exact Finset.mem_insert_of_mem (h.sub r hmem)
    · exact Finset.mem_insert.mpr (.inl (List.mem_singleton.mp hmem))
  · intro r hstored hmem
    rcases Finset.mem_insert.mp hmem with rfl | hmem
    · simp
    · have hx := (hcloses.stored r (h.lt r hmem)).mp hstored
      exact List.mem_append_left _ (h.passed r hx hmem)

theorem Sweep.adds (h : Sweep Q D passed x) (hr : ref ∈ x.stored) (hnot : ref ∉ passed) :
    SameStored x (x.closeStored ref) ∨ Adds Q := by
  by_cases hsame : SameStored x (x.closeStored ref)
  · exact .inl hsame
  · exact .inr ⟨D, x, ref, h.wf, h.holds, hr, fun hmem => hnot (h.passed ref hr hmem), hsame⟩

include hleave in
theorem Sweep.leave {passed' : List Nat} (h : Sweep Q D passed x) (hxy : Leaves x y D)
    (hsub : ∀ r ∈ passed', r ∈ passed) (hpassed : ∀ r ∈ y.stored, r ∈ passed → r ∈ passed') :
    Sweep Q D passed' y where
  wf := hxy.wf h.wf
  holds := hleave D x y hxy h.holds
  lt r hr := by
    rw [hxy.same]
    exact h.lt r hr
  sub r hr := h.sub r (hsub r hr)
  passed r hr hD := hpassed r hr (h.passed r (hxy.stored.subset hr) hD)

include hclose in
theorem closeQueued_rule {i : Nat} (h : Sweep Q D ((x.streamQueue.take i).map Prod.snd) x)
    (hfuel : x.remaining D < fuel) :
    ∃ y D', closeQueued fuel i x = .ok y ∧ Sweep Q D' (y.streamQueue.map Prod.snd) y ∧
      y.remaining D' ≤ x.remaining D := by
  induction fuel generalizing i x D with
  | zero => omega
  | succ fuel ih =>
    unfold closeQueued
    cases hentry : x.streamQueue[i]? with
    | none =>
      have hlen : x.streamQueue.length ≤ i := List.getElem?_eq_none_iff.mp hentry
      rw [List.take_of_length_le hlen] at h
      exact ⟨x, D, rfl, h, le_rfl⟩
    | some entry =>
      obtain ⟨id, ref⟩ := entry
      have htake : x.streamQueue.take (i + 1) = x.streamQueue.take i ++ [(id, ref)] := by
        rw [List.take_add_one, hentry]
        rfl
      have hmem : ref ∈ x.streamQueue.map Prod.snd :=
        List.mem_map.mpr ⟨_, List.mem_of_getElem? hentry, rfl⟩
      have hstored : ref ∈ x.stored := by simp [stored, hmem]
      have hnot : ref ∉ (x.streamQueue.take i).map Prod.snd := by
        have hnodup := (h.wf.nodup_queue.sublist ((List.take_sublist (i + 1) _).map _))
        rw [htake, List.map_append, List.map_singleton] at hnodup
        exact fun hin => (List.nodup_append.mp hnodup).2.2 ref hin ref (by simp) rfl
      obtain ⟨hnext, hless⟩ := h.closeStored hclose hstored hnot
      have hqueue : (x.closeStored ref).streamQueue.take (i + 1) = x.streamQueue.take (i + 1) := by
        obtain ⟨added, hadded⟩ := (closeStored_closes h.wf (h.wf.lt ref hstored)).queue
        have hlen : i < x.streamQueue.length := (List.getElem?_eq_some_iff.mp hentry).1
        rw [← hadded, List.take_append_of_le_length hlen]
      have hpassed : (x.streamQueue.take i).map Prod.snd ++ [ref] =
          ((x.closeStored ref).streamQueue.take (i + 1)).map Prod.snd := by
        rw [hqueue, htake, List.map_append, List.map_singleton]
      obtain ⟨y, D', hy, hsweep, hle⟩ := ih (hpassed ▸ hnext) (by omega)
      exact ⟨y, D', hy, hsweep, by omega⟩

include hclose in
/-- The loop over `pending_streams` stops only if a callback adds to it. -/
theorem closePending_rule (h : Sweep Q D passed x) (hpending : x.pendingStreams = passed ++ rest)
    (hqueue : x.streamQueue = [] ∨ Adds Q) :
    (∃ y D', closePending rest x = .ok y ∧ Sweep Q D' y.pendingStreams y ∧
      y.remaining D' ≤ x.remaining D ∧ (y.streamQueue = [] ∨ Adds Q)) ∨
    closePending rest x = .error .danglingIterator ∧ Adds Q := by
  induction rest generalizing x D passed with
  | nil =>
    rw [List.append_nil] at hpending
    exact .inl ⟨x, D, rfl, hpending ▸ h, le_rfl, hqueue⟩
  | cons ref rest ih =>
    have hstored : ref ∈ x.stored := by simp [stored, hpending]
    have hnot : ref ∉ passed := by
      have hnodup : x.pendingStreams.Nodup := h.wf.nodup.of_append_right
      rw [hpending] at hnodup
      exact fun hin => (List.nodup_append.mp hnodup).2.2 ref hin ref (by simp) rfl
    obtain ⟨hnext, hless⟩ := h.closeStored hclose hstored hnot
    have hadds := h.adds hstored hnot
    unfold closePending
    dsimp only
    split_ifs with hsame
    · have hqueue' := hqueue.elim (fun hnil => hadds.imp_left fun hs => hs.queue.trans hnil) .inr
      rcases ih hnext (by rw [hsame, hpending]; simp) hqueue' with ⟨y, D', hy, hsweep, hle, hq⟩ | hstop
      · exact .inl ⟨y, D', hy, hsweep, by omega, hq⟩
      · exact .inr hstop
    · exact .inr ⟨rfl, hadds.resolve_left fun hs => hsame hs.pending⟩

include hclose hleave in
theorem closeStreams_rule (h : Sweep Q D [] x)
    (hempty : x.streamQueue = [] ∧ x.pendingStreams = [] ∨ Adds Q) (hfuel : x.remaining D < fuel) :
    ∃ y D', closeStreams fuel x = .ok y ∧ Sweep Q D' [] y ∧ y.streams = [] ∧
      (y.stored = [] ∨ Adds Q) := by
  induction fuel generalizing x D with
  | zero => omega
  | succ fuel ih =>
    unfold closeStreams
    match hstreams : x.streams with
    | [] =>
      refine ⟨x, D, rfl, h, hstreams, hempty.imp_left fun ⟨hq, hp⟩ => ?_⟩
      simp [stored, hstreams, hq, hp]
    | (id, ref) :: rest =>
      have hstored : ref ∈ x.stored := by simp [stored, hstreams]
      obtain ⟨hnext, hless⟩ := h.closeStored hclose hstored (by simp)
      have hadds := h.adds hstored (by simp)
      have hentry : (id, ref) ∈ x.streams := by simp [hstreams]
      have hmem : (id, ref) ∈ (x.closeStored ref).streams :=
        (closeStored_closes h.wf (h.wf.lt ref hstored)).streams _ hentry
      have hleaves := erase_leaves hnext.wf hmem (Finset.mem_insert_self ref D)
      have herased : Sweep Q (insert ref D) [] ((x.closeStored ref).erase id) := by
        refine hnext.leave hleave hleaves (by simp) fun r hr hpassed => ?_
        obtain rfl : r = ref := by simpa using hpassed
        exact absurd hr (notMem_stored_erase hnext.wf hmem)
      have hempty' : ((x.closeStored ref).erase id).streamQueue = [] ∧
          ((x.closeStored ref).erase id).pendingStreams = [] ∨ Adds Q :=
        hempty.elim (fun ⟨hq, hp⟩ => hadds.imp_left fun hs =>
          ⟨hs.queue.trans hq, hs.pending.trans hp⟩) .inr
      have hle := hleaves.remaining_le
      dsimp only
      rw [streamClosed_of_mem h.wf hentry]
      exact ih herased hempty' (by omega)

/-- Everything `close_all_streams` does is closing streams, one at a time, and taking those
that are closed out of their containers. It runs to the end, unless a callback adds to the
containers while they are being emptied. -/
theorem closeAllStreams_rule
    (hclose : ∀ D z r, z.Wf → r ∈ z.stored → r ∉ D → Q D z → Q (insert r D) (z.closeStored r))
    (hleave : ∀ D z z', Leaves z z' D → Q D z → Q D z') (hx : x.Wf) (hQ : Q ∅ x) :
    (∃ y D', x.closeAllStreams = .ok y ∧ Sweep Q D' [] y ∧ y.streams = [] ∧
      (y.stored = [] ∨ Adds Q)) ∨
    x.closeAllStreams = .error .danglingIterator ∧ Adds Q := by
  have hstart : Sweep Q ∅ ((x.streamQueue.take 0).map Prod.snd) x :=
    ⟨hx, hQ, by simp, by simp, by simp⟩
  obtain ⟨x₁, D₁, heq₁, h₁, hle₁⟩ := closeQueued_rule hclose hstart (remaining_lt_work hx)
  have hleaves₁ : Leaves x₁ { x₁ with streamQueue := [] } D₁ := leaves_clearQueue h₁.sub
  have hcleared₁ : Sweep Q D₁ [] { x₁ with streamQueue := [] } := by
    refine h₁.leave hleave hleaves₁ (by simp) fun r hr hin => ?_
    have hnodup := h₁.wf.nodup
    simp only [stored, List.nodup_append, List.map_nil, List.append_nil] at hr hnodup
    grind
  have hle₁' := hleaves₁.remaining_le
  have hrun : x.closeAllStreams = (closePending x₁.pendingStreams { x₁ with streamQueue := [] }) >>=
      fun y => closeStreams x.work { y with pendingStreams := [] } := by
    rw [closeAllStreams, heq₁]
    rfl
  rw [hrun]
  rcases closePending_rule hclose hcleared₁ (List.nil_append _).symm (.inl rfl) with
    ⟨x₂, D₂, heq₂, h₂, hle₂, hq₂⟩ | ⟨heq₂, hadds⟩
  · have hleaves₂ : Leaves x₂ { x₂ with pendingStreams := [] } D₂ := leaves_clearPending h₂.sub
    have hcleared₂ : Sweep Q D₂ [] { x₂ with pendingStreams := [] } := by
      refine h₂.leave hleave hleaves₂ (by simp) fun r hr hin => ?_
      have hnodup := h₂.wf.nodup
      simp only [stored, List.nodup_append, List.append_nil] at hr hnodup
      grind
    have hle₂' := hleaves₂.remaining_le
    have hwork := remaining_lt_work hx
    rw [heq₂, ok_bind]
    exact .inl (closeStreams_rule hclose hleave hcleared₂ (hq₂.imp_left fun h => ⟨h, rfl⟩) (by omega))
  · exact .inr ⟨by rw [heq₂]; rfl, hadds⟩

/-- The rule where `close_all_streams` is known to have returned. -/
theorem closeAllStreams_sweep
    (hclose : ∀ D z r, z.Wf → r ∈ z.stored → r ∉ D → Q D z → Q (insert r D) (z.closeStored r))
    (hleave : ∀ D z z', Leaves z z' D → Q D z → Q D z') (hx : x.Wf) (hQ : Q ∅ x)
    (hy : x.closeAllStreams = .ok y) : ∃ D, Sweep Q D [] y := by
  rcases closeAllStreams_rule hclose hleave hx hQ with ⟨y', D, hy', hsweep, -⟩ | ⟨herror, -⟩
  · obtain rfl : y' = y := Except.ok.inj (hy'.symm.trans hy)
    exact ⟨D, hsweep⟩
  · rw [herror] at hy
    cases hy

end Rule

end StreamConn

end Libquic
