import RvnSyncPoint.Sync.LookAhead

/-!
# What an event is built from

The event that `current_event` settles on, if the file does not end inside it, is built from two
records: it begins at the first, and takes its new context from the second (`SyncEvent.Built`). A merge
keeps that, as it only changes the start to one with the same values (`BuiltFrom.merge`).
-/

namespace RvnSyncPoint

/-- The event begins at the `i`-th record, and ends with the `j`-th. -/
structure SyncEvent.BuiltFrom (R : Recording) (i j : ℕ) (e : SyncEvent) : Prop where
  one_le : 1 ≤ i
  le : i ≤ j
  le_count : j ≤ R.count
  position : e.position = i
  vmenter : (R.record j).isVmenter = true
  new_context : e.new_context = ((R.record j).point {} []).context
  rflags : e.rflags = (R.record j).rflags
  /-- It begins with its VMExit, or the first record is none. -/
  start : (e.is_first_event_context_unknown = false ∧ (R.record i).isVmexit = true ∧
      e.start_context.areValuesEquivalent ((R.record i).point {} []).context = true) ∨
    (e.is_first_event_context_unknown = true ∧ i = 1 ∧ (R.record 1).isVmexit = false)

/-- The event is built from records of the file. -/
def SyncEvent.Built (R : Recording) (e : SyncEvent) : Prop := ∃ i j, e.BuiltFrom R i j

section

variable {R : Recording} {e e' : SyncEvent} {v x y : ℕ × SyncPoint} {mid T U : Tape}

/-- The context of a record's point is that of the record. -/
theorem SyncRecord.point_context (r : SyncRecord) (p : SyncPoint) (data : List SyncPointData) :
    (r.point p data).context = (r.point {} []).context := by
  unfold SyncRecord.point SyncPoint.storeType
  split_ifs <;> rfl

@[simp]
theorem SyncRecord.point_rflags (r : SyncRecord) (p : SyncPoint) (data : List SyncPointData) :
    (r.point p data).rflags = r.rflags := by
  unfold SyncRecord.point SyncPoint.storeType
  split_ifs <;> rfl

/-- What a point takes from its record. -/
theorem Recording.IsPoint.record {k : ℕ} {c : SyncPoint} (h : R.IsPoint k c) :
    c.context = ((R.record k).point {} []).context ∧ c.rflags = (R.record k).rflags ∧
      c.isVmexit = (R.record k).isVmexit ∧ c.isVmenter = (R.record k).isVmenter := by
  obtain ⟨-, -, p, data, rfl⟩ := h
  exact ⟨SyncRecord.point_context _ _ _, SyncRecord.point_rflags _ _ _,
    SyncRecord.point_isVmexit _ _ _, SyncRecord.point_isVmenter _ _ _⟩

/-- An event that begins with the VMExit `v` and ends with the VMEnter `y`. -/
theorem SyncEvent.EndsAt.builtFrom (h : (SyncEvent.start v.1 v.2).EndsAt e mid y)
    (hv : R.IsPoint v.1 v.2) (hy : R.IsPoint y.1 y.2) (hle : v.1 ≤ y.1)
    (hvmexit : v.2.isVmexit = true) (hvmenter : y.2.isVmenter = true) : e.BuiltFrom R v.1 y.1 := by
  obtain ⟨hvcontext, -, hvkind, -⟩ := hv.record
  obtain ⟨hycontext, hyflags, -, hykind⟩ := hy.record
  refine ⟨hv.1, hle, hy.2.1, h.position, ?_, ?_, ?_, .inl ⟨h.unknown, ?_, ?_⟩⟩
  · rw [← hykind]
    exact hvmenter
  · rw [h.new_context, hycontext]
  · rw [h.rflags, hyflags]
  · rw [← hvkind]
    exact hvmexit
  · rw [Context.areValuesEquivalent_iff, h.start_context, ← hvcontext]
    rfl

/-- The event at the first record, whose VMExit is missing. -/
theorem SyncEvent.EndsAt.builtFrom_unknown (h : (SyncEvent.startUnknown 1).EndsAt e mid y)
    (hx : R.IsPoint 1 x.2) (hy : R.IsPoint y.1 y.2) (hvmexit : x.2.isVmexit = false)
    (hvmenter : y.2.isVmenter = true) : e.BuiltFrom R 1 y.1 := by
  obtain ⟨-, -, hxkind, -⟩ := hx.record
  obtain ⟨hycontext, hyflags, -, hykind⟩ := hy.record
  refine ⟨le_rfl, hy.1, hy.2.1, h.position, ?_, ?_, ?_, .inr ⟨h.unknown, rfl, ?_⟩⟩
  · rw [← hykind]
    exact hvmenter
  · rw [h.new_context, hycontext]
  · rw [h.rflags, hyflags]
  · rw [← hxkind]
    exact hvmexit

/-- An event merged into the next one: the start changes to one with the same values. -/
theorem SyncEvent.BuiltFrom.merge {i j : ℕ} (h : e'.BuiltFrom R i j) (he : e.withoutEffect = true)
    (hm : e.mergesWith e' = true) : (e.merge e').BuiltFrom R i j := by
  obtain ⟨-, -, hself⟩ := e.withoutEffect_iff.mp he
  obtain ⟨hvalues, -, -⟩ := (e.mergesWith_iff e').mp hm
  refine ⟨h.one_le, h.le, h.le_count, h.position, h.vmenter, h.new_context, h.rflags, ?_⟩
  refine h.start.imp_left fun ⟨hknown, hvmexit, hstart⟩ => ⟨hknown, hvmexit, ?_⟩
  rw [Context.areValuesEquivalent_iff] at hstart ⊢
  calc e.start_context.values = e.new_context.values := hself
    _ = e'.start_context.values := hvalues
    _ = ((R.record i).point {} []).context.values := hstart

/-- The event is built from records, unless the file ends inside it. -/
def SyncEvent.BuiltUnlessLast (R : Recording) (e : SyncEvent) : Prop :=
  e.is_last_event = false → e.Built R

/-- The event that is settled on is built from records, and the point that the reader stays on is one. -/
def Settled.Built (R : Recording) : Settled → Prop
  | .hang => True
  | .thrown _ _ _ => True
  | .stay e y _ => e.BuiltUnlessLast R ∧ R.IsPoint y.1 y.2
  | .atEnd e => e.BuiltUnlessLast R
  | .back e _ => e.BuiltUnlessLast R
  | .offEnd e => e.BuiltUnlessLast R

namespace Tape

/-- The points of the tape, in increasing order, were decoded from records. -/
def Recorded (R : Recording) (T : Tape) : Prop :=
  (∀ z ∈ T, R.IsPoint z.1 z.2) ∧ T.Pairwise fun y z => y.1 < z.1

theorem Recorded.append {pre : Tape} (h : Recorded R (pre ++ T)) : Recorded R T :=
  ⟨fun z hz => h.1 z (List.mem_append_right _ hz), (List.pairwise_append.mp h.2).2.1⟩

theorem Recorded.tail (h : Recorded R (x :: T)) : Recorded R T :=
  ⟨(List.forall_mem_cons.mp h.1).2, (List.pairwise_cons.mp h.2).2⟩

theorem settleCut_built {n : ℕ} (h : e.BuiltUnlessLast R) : (settleCut n e).Built R := by
  unfold settleCut
  split_ifs
  · trivial
  · exact h
  · exact h

/-- The complete events of a tape of records are built from them. -/
theorem fetchVmexit_built (hT : Recorded R T) (h : fetchVmexit T = .complete e y U) :
    e.Built R ∧ R.IsPoint y.1 y.2 ∧ Recorded R U := by
  obtain ⟨pre, v, mid, rfl, -, hv, hy, hends⟩ := fetchVmexit_complete h
  have hvT := hT.append
  have hsorted := List.pairwise_cons.mp hvT.2
  have hlt : v.1 < y.1 := hsorted.1 y (by simp)
  refine ⟨⟨v.1, y.1, hends.builtFrom (hT.1 v (by simp)) (hT.1 y (by simp)) hlt.le hv hy⟩,
    hT.1 y (by simp), ?_⟩
  exact hvT.tail.append.tail

/-- An event that the file ends in is its last one. -/
theorem fetchVmexit_cut_last (h : fetchVmexit T = .cut e) : e.is_last_event = true := by
  obtain ⟨pre, v, mid, -, -, -, hcut, -⟩ := fetchVmexit_cut h
  exact hcut.is_last_event

/-- Settling on an event that is built from records. -/
theorem settle_built {n : ℕ} (e : SyncEvent) (x : ℕ × SyncPoint) (T : Tape)
    (hbuilt : e.BuiltUnlessLast R) (hx : R.IsPoint x.1 x.2) (hT : Recorded R T) :
    (settle n e x T).Built R := by
  -- What is fetched is built from two points of the file, and a merge of two such events is too.
  induction e, x, T using settle_induction with
  | stay e x T he =>
    rw [settle_stay he]
    exact ⟨hbuilt, hx⟩
  | nothing e x T he hfetch =>
    rw [settle_nothing he hfetch]
    split_ifs
    · trivial
    · exact hbuilt
  | malformed e x T err y U he hfetch =>
    rw [settle_malformed he hfetch]
    trivial
  | cut e x T e' he hfetch =>
    rw [settle_cut he hfetch]
    split_ifs with hm
    · -- The merged event is the last one of the file.
      have hlast := fetchVmexit_cut_last hfetch
      refine settleCut_built fun h => ?_
      rw [show (e.merge e').is_last_event = e'.is_last_event from rfl, hlast] at h
      cases h
    · exact hbuilt
  | back e x T e' y U he hfetch hm =>
    rw [settle_back he hfetch hm]
    exact hbuilt
  | merge e x T e' y U he hfetch hm ih =>
    obtain ⟨⟨i, j, hij⟩, hy, hU⟩ := fetchVmexit_built hT hfetch
    rw [settle_merge he hfetch hm]
    have hmerge : (e.merge e').BuiltUnlessLast R := fun _ => ⟨i, j, hij.merge he hm⟩
    exact ih hmerge hy hU

/-- The event that `current_event` settles on, where it begins with a VMExit of the tape `U`. -/
theorem current_built_vmexit {n : ℕ} (h : fetch x T = fetchVmexit U) (hU : Recorded R U) :
    (current n x T).Built R := by
  unfold current
  rw [h]
  cases hfetch : fetchVmexit U with
  | nothing =>
    dsimp only
    split_ifs
    · exact fun h => by cases h
    · trivial
  | malformed err y V => trivial
  | cut e => exact settleCut_built fun h => by simp [fetchVmexit_cut_last hfetch] at h
  | complete e y V =>
    obtain ⟨hbuilt, hy, hV⟩ := fetchVmexit_built hU hfetch
    exact settle_built e y V (fun _ => hbuilt) hy hV

/-- The event that `current_event` settles on, where the VMExit of the first event is missing. -/
theorem current_built_unknown {n : ℕ} (hx : x.2.isVmexit = false) (h1 : x.1 = 1)
    (hT : Recorded R (x :: T)) : (current n x T).Built R := by
  have hmissing : (!x.2.isVmexit && x.1 == 1) = true := by simp [hx, h1]
  rcases current_missing (n := n) (T := T) hmissing with ⟨e, hbody, h⟩ | ⟨err, y, U, -, h⟩ |
    ⟨e, y, U, hbody, h⟩
  · have hlast := (body_cut hbody).1.is_last_event
    rw [h]
    intro hno
    rw [hlast] at hno
    cases hno
  · rw [h]
    trivial
  · obtain ⟨mid, hmid, hy, hends⟩ := body_complete hbody
    have hpoint : R.IsPoint 1 x.2 := h1 ▸ hT.1 x (by simp)
    rw [hmid] at hT
    rw [h1] at hends
    have hyT := hT.append
    have hbuilt := hends.builtFrom_unknown (x := x) hpoint (hyT.1 y (by simp)) hx hy
    rw [h]
    exact ⟨fun _ => ⟨1, y.1, hbuilt⟩, hyT.1 y (by simp)⟩

/-- The event that `current_event` settles on, from a record `x`, or from a point away from the first
record that is no VMExit. -/
theorem current_built {n : ℕ} (hT : Recorded R T)
    (hx : Recorded R (x :: T) ∨ (x.2.isVmexit = false ∧ x.1 ≠ 1)) :
    (current n x T).Built R := by
  rcases hx with hxT | ⟨hx, h1⟩
  · by_cases hmissing : x.2.isVmexit = false ∧ x.1 = 1
    · exact current_built_unknown hmissing.1 hmissing.2 hxT
    · have hfetch : fetch x T = fetchVmexit (x :: T) := by
        rw [fetch, if_neg (by simpa using hmissing)]
      exact current_built_vmexit hfetch hxT
  · exact current_built_vmexit (fetch_eq hx h1) hT

end Tape

end

end RvnSyncPoint
