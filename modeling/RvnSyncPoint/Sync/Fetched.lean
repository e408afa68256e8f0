import RvnSyncPoint.Sync.Fetch

/-!
# The events on a tape

Which points of the tape a fetched event is made of, and what it takes from each: its start from the
VMExit, its end from the VMEnter, and in between at most an interrupt and its second report.
-/

namespace RvnSyncPoint

/-- The event `e` at its last point: the context and the flags after it. -/
def SyncEvent.finished (e : SyncEvent) (vmenter : SyncPoint) : SyncEvent :=
  { e with
    new_context := vmenter.context, rflags := vmenter.rflags
    is_instruction_emulation := e.emulation vmenter.rip, is_valid := true }

/-- An event that ends without an exception ends with a VMEnter. -/
theorem SyncEvent.finish_ok {e e' : SyncEvent} {p : SyncPoint} {k : ℕ} (h : e.finish p k = .ok e') :
    p.isVmenter = true ∧ e' = e.finished p := by
  unfold SyncEvent.finish at h
  cases hv : p.isVmenter with
  | false => simp [hv, bind, Except.bind, throw, throwThe, MonadExceptOf.throw] at h
  | true =>
    simp only [hv, Bool.not_true, Bool.false_eq_true, if_false, bind, Except.bind, pure,
      Except.pure] at h
    split at h
    · cases h
    · cases h
      exact ⟨rfl, rfl⟩

theorem SyncEvent.finish_eq {e : SyncEvent} {p : SyncPoint} (hp : p.isVmenter = true)
    (hsane : (e.finished p).checkSanity = .ok ()) (k : ℕ) : e.finish p k = .ok (e.finished p) := by
  unfold finish
  simp only [hp, Bool.not_true, Bool.false_eq_true, if_false, bind, Except.bind, pure, Except.pure]
  split
  · rename_i err herr
    cases herr.symm.trans hsane
  · rfl

/-- The checks that an event passes at its last point. -/
theorem SyncEvent.finish_ok_iff (e : SyncEvent) (p : SyncPoint) (k : ℕ) :
    (∃ e', e.finish p k = .ok e') ↔
      p.isVmenter = true ∧ (e.finished p).checkSanity = .ok () := by
  constructor
  · rintro ⟨e', h⟩
    have hp := (finish_ok h).1
    refine ⟨hp, ?_⟩
    cases hsane : (e.finished p).checkSanity with
    | ok u => rfl
    | error err =>
      have herr : e.finish p k = .error err := by
        unfold finish
        rw [hp]
        exact congrArg (· >>= _) hsane
      rw [herr] at h
      cases h
  · rintro ⟨hp, hsane⟩
    exact ⟨_, finish_eq hp hsane k⟩

/-- The events `e` and `e'` have the same start. -/
structure SyncEvent.SameStart (e e' : SyncEvent) : Prop where
  position : e'.position = e.position
  unknown : e'.is_first_event_context_unknown = e.is_first_event_context_unknown
  start_rip : e'.start_rip = e.start_rip
  start_context : e'.start_context = e.start_context
  start_reason : e'.start_reason = e.start_reason

/-- What an event that starts as `e` takes from its last point `y`, after the interrupts `mid`. -/
structure SyncEvent.EndsAt (e e' : SyncEvent) (mid : Tape) (y : ℕ × SyncPoint) : Prop
    extends e.SameStart e' where
  is_valid : e'.is_valid = true
  is_last_event : e'.is_last_event = e.is_last_event
  has_interrupt : e'.has_interrupt = (e.has_interrupt || !mid.isEmpty)
  emulation : e'.is_instruction_emulation = e.emulation y.2.rip
  new_context : e'.new_context = y.2.context
  rflags : e'.rflags = y.2.rflags

/-- What an event that starts as `e` is when the file ends inside it. -/
structure SyncEvent.CutShort (e e' : SyncEvent) : Prop extends e.SameStart e' where
  is_valid : e'.is_valid = true
  is_last_event : e'.is_last_event = true
  emulation : e'.is_instruction_emulation = e.is_instruction_emulation
  new_context : e'.new_context = e.new_context

namespace Tape

variable {e e' : SyncEvent} {x y : ℕ × SyncPoint} {T U : Tape} {err : RuntimeError}

theorem vmenter_complete (h : vmenter e x T = .complete e' y U) :
    y = x ∧ U = T ∧ y.2.isVmenter = true ∧ e' = e.finished y.2 := by
  unfold vmenter at h
  split at h
  · rename_i e'' hfin
    cases h
    exact ⟨rfl, rfl, SyncEvent.finish_ok hfin⟩
  · cases h

theorem vmenter_not_cut (h : vmenter e x T = .cut e') : False := by
  unfold vmenter at h
  split at h <;> cases h

theorem afterInterrupt_complete {isp : SyncPoint} (h : afterInterrupt e isp x T = .complete e' y U) :
    y = x ∧ U = T ∧ y.2.isVmenter = true ∧ e' = (e.addData y.2).finished y.2 := by
  unfold afterInterrupt at h
  split at h
  · cases h
  · obtain ⟨rfl, hrest⟩ := vmenter_complete h
    exact ⟨rfl, hrest⟩

theorem afterInterrupt_not_cut {isp : SyncPoint} (h : afterInterrupt e isp x T = .cut e') : False := by
  unfold afterInterrupt at h
  split at h
  · cases h
  · exact vmenter_not_cut h

/-- A complete event with an interrupt: the interrupt, maybe its second report, and the VMEnter. -/
theorem interrupt_complete (h : interrupt e x T = .complete e' y U) :
    ∃ mid, x :: T = mid ++ y :: U ∧ mid ≠ [] ∧ y.2.isVmenter = true ∧
      e' = ((e.interrupt x.2).addData y.2).finished y.2 := by
  unfold interrupt at h
  split at h
  · cases h
  · rename_i w V
    split_ifs at h with hint heq
    · split at h
      · cases h
      · rename_i z V
        obtain ⟨rfl, rfl, hv, rfl⟩ := afterInterrupt_complete h
        exact ⟨[x, w], rfl, by simp, hv, rfl⟩
    · obtain ⟨rfl, rfl, hv, rfl⟩ := afterInterrupt_complete h
      exact ⟨[x], rfl, by simp, hv, rfl⟩

theorem interrupt_cut (h : interrupt e x T = .cut e') : e' = (e.interrupt x.2).last := by
  unfold interrupt at h
  split at h
  · cases h
    rfl
  · split_ifs at h with hint heq
    · split at h
      · cases h
        rfl
      · exact (afterInterrupt_not_cut h).elim
    · exact (afterInterrupt_not_cut h).elim

/-- The points of a complete event after its VMExit. -/
theorem body_complete (h : body e x T = .complete e' y U) :
    ∃ mid, x :: T = mid ++ y :: U ∧ y.2.isVmenter = true ∧ e.EndsAt e' mid y := by
  unfold body at h
  split_ifs at h with hint
  · obtain ⟨mid, hmid, hne, hv, rfl⟩ := interrupt_complete h
    exact ⟨mid, hmid, hv, ⟨⟨rfl, rfl, rfl, rfl, rfl⟩, rfl, rfl,
      by simp [hne, SyncEvent.finished, SyncEvent.addData, SyncEvent.interrupt], rfl, rfl, rfl⟩⟩
  · obtain ⟨rfl, rfl, hv, rfl⟩ := vmenter_complete h
    exact ⟨[], rfl, hv, ⟨⟨rfl, rfl, rfl, rfl, rfl⟩, rfl, rfl,
      by simp [SyncEvent.finished, SyncEvent.addData], rfl, rfl, rfl⟩⟩

/-- The file can end inside an event only after an interrupt. -/
theorem body_cut (h : body e x T = .cut e') : e.CutShort e' ∧ e'.has_interrupt = true := by
  unfold body at h
  split_ifs at h with hint
  · obtain rfl := interrupt_cut h
    exact ⟨⟨⟨rfl, rfl, rfl, rfl, rfl⟩, rfl, rfl, rfl, rfl⟩, rfl⟩
  · exact (vmenter_not_cut h).elim

theorem body_not_nothing (h : body e x T = .nothing) : False := by
  unfold body interrupt afterInterrupt vmenter at h
  repeat (split at h <;> try cases h)

/-! ## From a VMExit on -/

/-- The tape up to its first VMExit. -/
theorem toVmexit_spec (T : Tape) :
    ∃ pre, T = pre ++ toVmexit T ∧ (∀ z ∈ pre, z.2.isVmexit = false) ∧
      ∀ v U, toVmexit T = v :: U → v.2.isVmexit = true := by
  refine ⟨T.takeWhile fun x => !x.2.isVmexit, ?_, ?_, ?_⟩
  · exact (List.takeWhile_append_dropWhile).symm
  · intro z hz
    have hall := List.all_takeWhile (l := T) (p := fun x => !x.2.isVmexit)
    simpa using List.all_eq_true.mp hall z hz
  · intro v U hv
    have hne : toVmexit T ≠ [] := by simp [hv]
    have hnot := List.head_dropWhile_not (fun x : ℕ × SyncPoint => !x.2.isVmexit) hne
    have hhead : (toVmexit T).head hne = v := by simp [hv]
    unfold toVmexit at hhead
    rw [hhead] at hnot
    simpa using hnot

/-- What the next complete event is made of: after points that are skipped, the VMExit `v`, the
interrupts `mid` and the VMEnter `y`. -/
theorem fetchVmexit_complete (h : fetchVmexit T = .complete e y U) :
    ∃ pre v mid, T = pre ++ v :: (mid ++ y :: U) ∧ (∀ z ∈ pre, z.2.isVmexit = false) ∧
      v.2.isVmexit = true ∧ y.2.isVmenter = true ∧ (SyncEvent.start v.1 v.2).EndsAt e mid y := by
  obtain ⟨pre, hpre, hskip, hv⟩ := toVmexit_spec T
  unfold fetchVmexit at h
  match hT : toVmexit T, h with
  | v :: w :: V, h =>
    obtain ⟨mid, hmid, hy, he⟩ := body_complete h
    refine ⟨pre, v, mid, ?_, hskip, hv v _ hT, hy, he⟩
    rw [← hmid, ← hT]
    exact hpre

/-- What an event that the file ends in is made of. -/
theorem fetchVmexit_cut (h : fetchVmexit T = .cut e) :
    ∃ pre v mid, T = pre ++ v :: mid ∧ (∀ z ∈ pre, z.2.isVmexit = false) ∧
      v.2.isVmexit = true ∧ (SyncEvent.start v.1 v.2).CutShort e ∧
      (e.has_interrupt = false → mid = []) := by
  obtain ⟨pre, hpre, hskip, hv⟩ := toVmexit_spec T
  unfold fetchVmexit at h
  match hT : toVmexit T, h with
  | [v], h =>
    cases h
    exact ⟨pre, v, [], hT ▸ hpre, hskip, hv v _ hT, ⟨⟨rfl, rfl, rfl, rfl, rfl⟩, rfl, rfl, rfl, rfl⟩,
      fun _ => rfl⟩
  | v :: w :: V, h =>
    obtain ⟨he, hint⟩ := body_cut h
    exact ⟨pre, v, w :: V, hT ▸ hpre, hskip, hv v _ hT, he, fun h0 => by simp [hint] at h0⟩

/-- Nothing is fetched only from a tape without a VMExit. -/
theorem fetchVmexit_nothing (h : fetchVmexit T = .nothing) : ∀ z ∈ T, z.2.isVmexit = false := by
  obtain ⟨pre, hpre, hskip, -⟩ := toVmexit_spec T
  unfold fetchVmexit at h
  match hT : toVmexit T, h with
  | [], _ =>
    rw [hT, List.append_nil] at hpre
    rw [hpre]
    exact hskip
  | v :: w :: V, h => exact (body_not_nothing h).elim

/-- A complete event takes at least its VMExit and its VMEnter off the tape. -/
theorem fetchVmexit_length (h : fetchVmexit T = .complete e y U) : U.length < T.length := by
  obtain ⟨pre, v, mid, rfl, -⟩ := fetchVmexit_complete h
  simp only [List.length_append, List.length_cons]
  omega

/-- A VMEnter is skipped on the way to the next VMExit. -/
theorem fetchVmexit_cons (hx : x.2.isVmexit = false) : fetchVmexit (x :: T) = fetchVmexit T := by
  simp [fetchVmexit, toVmexit, hx]

/-- Away from the first record, fetching from a point that is no VMExit is fetching from what is to
come. -/
theorem fetch_eq (hx : x.2.isVmexit = false) (h1 : x.1 ≠ 1) : fetch x T = fetchVmexit T := by
  simp [fetch, h1, fetchVmexit_cons hx]

theorem isVmexit_of_isVmenter {p : SyncPoint} (h : p.isVmenter = true) : p.isVmexit = false := by
  simp [SyncPoint.isVmexit, h]

end Tape

end RvnSyncPoint
