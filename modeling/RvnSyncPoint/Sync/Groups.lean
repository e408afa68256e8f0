import RvnSyncPoint.Sync.LookAhead

/-!
# Groups of points

What a well-formed recording is made of: groups of a VMExit, its interrupt, which may be reported twice,
and a VMEnter. `Group.event` is the event that a group stands for, and `mergeEvents` matches consecutive
events at the same time. Here `current_event` is shown to do both on a tape of groups: it gets the next
of the merged events, and leaves the groups that follow (`Tape.current_groups`).
-/

namespace RvnSyncPoint

/-- The points of one event. -/
inductive Group where
  /-- At the beginning of a file whose first VMExit is missing. -/
  | head (interrupts : Tape) (vmenter : ℕ × SyncPoint)
  | whole (vmexit : ℕ × SyncPoint) (interrupts : Tape) (vmenter : ℕ × SyncPoint)
  /-- At the end of a file that ends before the VMEnter. -/
  | cut (vmexit : ℕ × SyncPoint) (interrupts : Tape)

/-- An interrupt, reported at most twice, and the VMEnter after it if there is one: all have the
registers of the first report. -/
def Tape.Interrupts : Tape → Option (ℕ × SyncPoint) → Prop
  | [], _ => True
  | [i], vmenter => i.2.isInterrupt = true ∧ ∀ n ∈ vmenter, n.2.isEquivalent i.2 = true
  | [i, i'], vmenter => i.2.isInterrupt = true ∧ i'.2.isInterrupt = true ∧
      i'.2.isEquivalent i.2 = true ∧ ∀ n ∈ vmenter, n.2.isEquivalent i.2 = true
  | _, _ => False

theorem Tape.Interrupts.isInterrupt {i : ℕ × SyncPoint} {is : Tape} {vmenter : Option (ℕ × SyncPoint)}
    (h : Tape.Interrupts (i :: is) vmenter) : i.2.isInterrupt = true := by
  cases is with
  | nil => exact h.1
  | cons i' is =>
    cases is with
    | nil => exact h.1
    | cons i'' is => cases h

/-- A field of the first report of an interrupt, if there is one. -/
def Tape.interruptField {α : Type} (field : SyncPoint → α) (default : α) : Tape → α
  | [] => default
  | i :: _ => field i.2

namespace Group

/-- The points of a group, in the order of the file. -/
def points : Group → Tape
  | head is n => is ++ [n]
  | whole x is n => x :: (is ++ [n])
  | cut x is => x :: is

/-- The VMEnter that a group ends with. -/
def vmenter : Group → Option (ℕ × SyncPoint)
  | head _ n => some n
  | whole _ _ n => some n
  | cut _ _ => none

/-- The index of a group's first point. -/
def position : Group → ℕ
  | head is n => (is.headD n).1
  | whole x _ _ => x.1
  | cut x _ => x.1

/-- The points of a group are of the right kinds. -/
def WellFormed : Group → Prop
  | head is n => is.Interrupts (some n) ∧ n.2.isVmenter = true
  | whole x is n => x.2.isVmexit = true ∧ is.Interrupts (some n) ∧ n.2.isVmenter = true
  | cut x is => x.2.isVmexit = true ∧ is.Interrupts none

/-- The event that a group stands for. -/
def event : Group → SyncEvent
  | head is n =>
    { position := (is.headD n).1
      is_valid := true
      is_first_event_context_unknown := true
      start_reason := .VMX_EXIT_XCPT_OR_NMI
      rflags := n.2.rflags
      has_interrupt := !is.isEmpty
      interrupt_vector := is.interruptField (·.interrupt_vector) 0
      interrupt_rip := is.interruptField (·.rip) 0
      fault_error_code := is.interruptField (·.fault_error_code) 0
      is_instruction_emulation := true
      new_context := n.2.context
      data := is.interruptField (·.data) [] ++ n.2.data }
  | whole x is n =>
    { position := x.1
      is_valid := true
      start_rip := x.2.rip
      start_context := x.2.context
      start_reason := x.2.type
      rflags := n.2.rflags
      has_interrupt := !is.isEmpty
      interrupt_vector := is.interruptField (·.interrupt_vector) 0
      interrupt_rip := is.interruptField (·.rip) 0
      fault_error_code := is.interruptField (·.fault_error_code) 0
      is_instruction_emulation :=
        x.2.type.alwaysEmulates || (x.2.type != .VMX_EXIT_HLT && n.2.rip != x.2.rip)
      new_context := n.2.context
      data := x.2.data ++ is.interruptField (·.data) [] ++ n.2.data }
  | cut x is =>
    { position := x.1
      is_valid := true
      is_last_event := true
      start_rip := x.2.rip
      start_context := x.2.context
      start_reason := x.2.type
      has_interrupt := !is.isEmpty
      interrupt_vector := is.interruptField (·.interrupt_vector) 0
      interrupt_rip := is.interruptField (·.rip) 0
      fault_error_code := is.interruptField (·.fault_error_code) 0
      data := x.2.data ++ is.interruptField (·.data) [] }

end Group

/-- Groups that follow one another: all complete and sane, but for the last one, which may be cut. -/
inductive Follow : List Group → Prop
  | nil : Follow []
  | cut {x : ℕ × SyncPoint} {is : Tape} (h : (Group.cut x is).WellFormed) : Follow [.cut x is]
  | cons {x n : ℕ × SyncPoint} {is : Tape} {gs : List Group} (h : (Group.whole x is n).WellFormed)
    (hsane : (Group.whole x is n).event.checkSanity = .ok ()) (hgs : Follow gs) :
    Follow (.whole x is n :: gs)

/-- The groups of a file: maybe one without its VMExit at the first record, and those that follow. -/
inductive Grouped : List Group → Prop
  | follow {gs : List Group} (h : Follow gs) : Grouped gs
  | head {n : ℕ × SyncPoint} {is : Tape} {gs : List Group} (h : (Group.head is n).WellFormed)
    (hfirst : (Group.head is n).position = 1) (hgs : Follow gs) : Grouped (.head is n :: gs)

/-! ## Merged events -/

/-- The event `e` with those after it, where each event without effect that is matched at the same time
as the next one is merged with it. -/
def mergeFrom (e : SyncEvent) : List SyncEvent → List SyncEvent
  | [] => [e]
  | e' :: es =>
    if e.withoutEffect && e.mergesWith e' then
      mergeFrom { e' with start_context := e.start_context } es
    else e :: mergeFrom e' es

/-- The events that remain after merging. -/
def mergeEvents : List SyncEvent → List SyncEvent
  | [] => []
  | e :: es => mergeFrom e es

/-- The event `e'` is `e`, up to a start context with the same values. -/
def SyncEvent.UpToStart (e e' : SyncEvent) : Prop :=
  e.start_context.areValuesEquivalent e'.start_context = true ∧
    e' = { e with start_context := e'.start_context }

section merge

variable {e e' e'' : SyncEvent} {es : List SyncEvent}

theorem SyncEvent.UpToStart.refl (e : SyncEvent) : e.UpToStart e :=
  ⟨(Context.areValuesEquivalent_iff _ _).mpr rfl, rfl⟩

theorem SyncEvent.UpToStart.withoutEffect (h : e.UpToStart e') :
    e'.withoutEffect = e.withoutEffect := by
  obtain ⟨hvalues, heq⟩ := h
  have hvalues := (Context.areValuesEquivalent_iff _ _).mp hvalues
  rw [Bool.eq_iff_iff, withoutEffect_iff, withoutEffect_iff, ← hvalues, heq]

theorem SyncEvent.UpToStart.mergesWith (h : e.UpToStart e') :
    e'.mergesWith e'' = e.mergesWith e'' := by
  obtain ⟨-, heq⟩ := h
  rw [heq]
  rfl

/-- An event that another one was merged with is itself, up to its start. -/
theorem SyncEvent.UpToStart.merge (he : e.withoutEffect = true) (hm : e.mergesWith e' = true) :
    e'.UpToStart (e.merge e') := by
  obtain ⟨-, -, hvalues⟩ := e.withoutEffect_iff.mp he
  obtain ⟨hnext, -, -⟩ := (e.mergesWith_iff e').mp hm
  exact ⟨(Context.areValuesEquivalent_iff _ _).mpr (hvalues.trans hnext).symm, rfl⟩

theorem mergeFrom_merge (he : e.withoutEffect = true) (hm : e.mergesWith e' = true) :
    mergeFrom e (e' :: es) = mergeFrom (e.merge e') es := by
  rw [mergeFrom, he, hm]
  rfl

theorem mergeFrom_leave (h : e.withoutEffect = true → ∀ e' ∈ es.head?, e.mergesWith e' = false) :
    mergeFrom e es = e :: mergeEvents es := by
  cases es with
  | nil => rfl
  | cons e' es =>
    have hand : (e.withoutEffect && e.mergesWith e') = false := by
      cases he : e.withoutEffect with
      | false => rfl
      | true => exact h he e' rfl
    rw [mergeFrom, hand]
    rfl

end merge

/-! ## Fetching the event of a group -/

namespace Tape

variable {N : ℕ} {e : SyncEvent} {x n : ℕ × SyncPoint} {is T U : Tape} {g : Group} {gs : List Group}

theorem vmenter_eq (hn : n.2.isVmenter = true) (hsane : (e.finished n.2).checkSanity = .ok ()) :
    vmenter e n T = .complete (e.finished n.2) n T := by
  unfold vmenter
  rw [SyncEvent.finish_eq hn hsane]

theorem isInterrupt_of_isVmenter {p : SyncPoint} (h : p.isVmenter = true) : p.isInterrupt = false := by
  have htype : p.type = .VMENTER := by simpa [SyncPoint.isVmenter] using h
  simp only [SyncPoint.isInterrupt, htype]
  decide

/-- What an event that starts as `e` takes from the interrupts `is`. -/
def interrupted (e : SyncEvent) : Tape → SyncEvent
  | [] => e
  | i :: _ => (e.addData i.2).interrupt i.2

/-- The points after the VMExit of a complete group. -/
theorem body_eq (his : is.Interrupts (some n)) (hn : n.2.isVmenter = true)
    (hT : x :: T = is ++ n :: U)
    (hsane : (((interrupted e is).addData n.2).finished n.2).checkSanity = .ok ()) :
    body e x T = .complete (((interrupted e is).addData n.2).finished n.2) n U := by
  have hnot := isInterrupt_of_isVmenter hn
  match is, his with
  | [], _ =>
    cases hT
    simp only [body, hnot, Bool.false_eq_true, if_false]
    exact vmenter_eq hn hsane
  | [i], ⟨hi, heq⟩ =>
    obtain ⟨rfl, rfl⟩ : x = i ∧ T = n :: U := List.cons.inj hT
    simp only [body, hi, if_true, interrupt, hnot, Bool.false_eq_true, if_false, afterInterrupt,
      heq n rfl, Bool.not_true]
    exact vmenter_eq hn hsane
  | [i, i'], ⟨hi, hi', hsame, heq⟩ =>
    obtain ⟨rfl, rfl⟩ : x = i ∧ T = i' :: n :: U := List.cons.inj hT
    simp only [body, hi, if_true, interrupt, hi', hsame, Bool.not_true, Bool.false_eq_true, if_false,
      afterInterrupt, heq n rfl]
    exact vmenter_eq hn hsane

/-- The points after the VMExit of a group that is cut, if there are any. -/
theorem body_cut_eq (his : Interrupts (x :: T) none) :
    body e x T = .cut (interrupted e (x :: T)).last := by
  match T, his with
  | [], ⟨hi, _⟩ =>
    simp only [body, hi, if_true, interrupt]
    rfl
  | [i'], ⟨hi, hi', hsame, _⟩ =>
    simp only [body, hi, if_true, interrupt, hi', hsame, Bool.not_true, Bool.false_eq_true, if_false]
    rfl

/-- The event of a complete group, as it is put together. -/
theorem event_whole : (Group.whole x is n).event =
    ((interrupted (.start x.1 x.2) is).addData n.2).finished n.2 := by
  have hem : (x.2.type.alwaysEmulates || (x.2.type != .VMX_EXIT_HLT && n.2.rip != x.2.rip)) =
      (SyncEvent.start x.1 x.2).emulation n.2.rip := by
    rw [Bool.eq_iff_iff, ← not_iff_not, Bool.not_eq_true, Bool.not_eq_true, ← SyncPoint.notEmulated_iff]
    simp [SyncPoint.NotEmulated, or_iff_not_imp_left]
  simp only [Group.event, hem]
  cases is with
  | nil => simp [interrupted, interruptField, SyncEvent.start, SyncEvent.addData, SyncEvent.finished,
      SyncEvent.emulation]
  | cons i is => simp [interrupted, interruptField, SyncEvent.start, SyncEvent.addData,
      SyncEvent.finished, SyncEvent.interrupt, SyncEvent.emulation]

theorem event_head : (Group.head is n).event =
    ((interrupted (.startUnknown (is.headD n).1) is).addData n.2).finished n.2 := by
  cases is <;> rfl

theorem event_cut : (Group.cut x is).event = (interrupted (.start x.1 x.2) is).last := by
  cases is with
  | nil => simp [Group.event, interrupted, interruptField, SyncEvent.start, SyncEvent.last]
  | cons i is => rfl

/-- From a complete group, its event is fetched. -/
theorem fetchVmexit_whole (h : (Group.whole x is n).WellFormed)
    (hsane : (Group.whole x is n).event.checkSanity = .ok ()) :
    fetchVmexit ((Group.whole x is n).points ++ T) = .complete (Group.whole x is n).event n T := by
  obtain ⟨hx, his, hn⟩ := h
  have hskip : toVmexit ((Group.whole x is n).points ++ T) = (Group.whole x is n).points ++ T := by
    simp [toVmexit, Group.points, hx]
  obtain ⟨y, U, hy⟩ : ∃ y U, is ++ n :: T = y :: U := by
    cases is with
    | nil => exact ⟨_, _, rfl⟩
    | cons i is => exact ⟨_, _, rfl⟩
  have hpoints : (Group.whole x is n).points ++ T = x :: y :: U := by
    rw [← hy]
    simp [Group.points]
  rw [event_whole] at hsane ⊢
  rw [fetchVmexit, hskip, hpoints]
  exact body_eq his hn hy.symm hsane

/-- From the first record of a file whose first VMExit is missing, the event of its first group is
fetched. -/
theorem fetch_head (h : (Group.head is n).WellFormed) (hfirst : (Group.head is n).position = 1)
    (hT : x :: T = (Group.head is n).points ++ U) :
    fetch x T = .complete (Group.head is n).event n U := by
  obtain ⟨his, hn⟩ := h
  have hT' : x :: T = is ++ n :: U := by
    rw [hT]
    simp [Group.points]
  have hx1 : x.1 = 1 ∧ x.2.isVmexit = false := by
    cases is with
    | nil =>
      cases hT'
      exact ⟨hfirst, isVmexit_of_isVmenter hn⟩
    | cons i is =>
      obtain ⟨rfl, -⟩ := List.cons.inj hT'
      exact ⟨hfirst, by simp [SyncPoint.isVmexit, his.isInterrupt]⟩
  have hsane : (Group.head is n).event.checkSanity = .ok () := rfl
  rw [event_head] at hsane
  have hstart : (is.headD n).1 = x.1 := hfirst.trans hx1.1.symm
  rw [hstart] at hsane
  have hfetch : fetch x T = body (.startUnknown x.1) x T := by simp [fetch, hx1]
  rw [hfetch, body_eq his hn hT' hsane, ← hstart, ← event_head]

/-- From a group that is cut, its event is fetched as the last one. -/
theorem fetchVmexit_cut_eq (h : (Group.cut x is).WellFormed) :
    fetchVmexit (Group.cut x is).points = .cut (Group.cut x is).event := by
  obtain ⟨hx, his⟩ := h
  have hskip : toVmexit (Group.cut x is).points = (Group.cut x is).points := by
    simp [toVmexit, Group.points, hx]
  rw [event_cut, fetchVmexit, hskip]
  cases is with
  | nil => rfl
  | cons i is => exact body_cut_eq his

end Tape

/-! ## Settling on the event of a group -/

/-- The event of `g` is not merged with the one that follows, and there is one to look ahead to. -/
def Group.Leaves (g : Group) (gs : List Group) : Prop :=
  g.event.withoutEffect = true → ∃ g' gs', gs = g' :: gs' ∧ g.event.mergesWith g'.event = false

/-- How `current_event` settles on `e`, the event of a group that it was merged up to and that leaves the
groups `gs`. -/
def Group.settled (e : SyncEvent) (g : Group) (gs : List Group) : Settled :=
  match g.vmenter with
  | none => .atEnd e
  | some n =>
    if e.withoutEffect then .back e ((gs.head?.map Group.position).getD 0)
    else .stay e n (gs.flatMap Group.points)

namespace Tape

variable {N : ℕ} {e : SyncEvent} {x n : ℕ × SyncPoint} {is T U : Tape} {g : Group} {gs : List Group}

/-- Settling on the event that was fetched from the group `g`. -/
def settleGroup (N : ℕ) (e : SyncEvent) (g : Group) (gs : List Group) : Settled :=
  match g.vmenter with
  | none => settleCut N e
  | some n => settle N e n (gs.flatMap Group.points)

/-- Looking ahead to the next group. -/
theorem settle_follow (he : e.withoutEffect = true) (h : Follow (g :: gs)) :
    settle N e x ((g :: gs).flatMap Group.points) =
      if e.mergesWith g.event then settleGroup N (e.merge g.event) g gs else .back e g.position := by
  rw [List.flatMap_cons]
  cases h with
  | cut hg =>
    rw [List.flatMap_nil, List.append_nil, settle_cut he (fetchVmexit_cut_eq hg)]
    rfl
  | cons hg hsane hgs =>
    rw [settle_complete he (fetchVmexit_whole hg hsane)]
    rfl

/-- An event that is not merged with the next one is settled on. -/
theorem settleGroup_leaves (hgs : Follow gs) (hcut : g.vmenter = none → gs = [])
    (he : g.event.UpToStart e) (hg : g.Leaves gs) : settleGroup N e g gs = g.settled e gs := by
  unfold settleGroup Group.settled
  cases heffect : e.withoutEffect with
  | false =>
    cases hn : g.vmenter with
    | none =>
      show settleCut N e = .atEnd e
      rw [settleCut, if_neg (by simp [heffect])]
    | some n =>
      show settle N e n _ = _
      rw [settle_stay heffect]
      rfl
  | true =>
    obtain ⟨g', gs', rfl, hm⟩ := hg (he.withoutEffect ▸ heffect)
    cases hn : g.vmenter with
    | none => cases hcut hn
    | some n =>
      rw [← he.mergesWith] at hm
      show settle N e n _ = _
      rw [settle_follow heffect hgs, if_neg (by simp [hm])]
      rfl

/-- Settling on the event `e` of the group `g`, or of groups up to it: the look-ahead goes on to the
first event that is not merged with the next one, or to the last group. The induction is on the groups
that follow. -/
theorem settleGroup_follow (hgs : Follow gs) : ∀ (g : Group) (e : SyncEvent),
    (g.vmenter = none → gs = []) → g.event.UpToStart e →
    ∃ pre g' gs' e', g :: gs = pre ++ g' :: gs' ∧ g'.event.UpToStart e' ∧
      mergeFrom e (gs.map Group.event) = e' :: mergeEvents (gs'.map Group.event) ∧
      (g'.Leaves gs' → settleGroup N e g gs = g'.settled e' gs') ∧ (g'.Leaves gs' ∨ gs' = []) := by
  -- `pre` collects the groups that are merged into the next one.
  induction gs with
  | nil =>
    intro g e hcut he
    exact ⟨[], g, [], e, rfl, he, rfl, settleGroup_leaves hgs hcut he, .inr rfl⟩
  | cons g₂ gs ih =>
    intro g e hcut he
    by_cases hmerge : e.withoutEffect = true ∧ e.mergesWith g₂.event = true
    · -- The next event is merged, and settled on in its turn.
      obtain ⟨heffect, hm⟩ := hmerge
      have hgs₂ : Follow gs ∧ (g₂.vmenter = none → gs = []) := by
        cases hgs with
        | cut hg => exact ⟨.nil, fun _ => rfl⟩
        | cons hg hsane hgs => exact ⟨hgs, nofun⟩
      obtain ⟨pre, g', gs', e', hsplit, he', hmerged, hsettle, hleaves⟩ :=
        ih hgs₂.1 g₂ (e.merge g₂.event) hgs₂.2 (.merge heffect hm)
      refine ⟨g :: pre, g', gs', e', by rw [hsplit]; rfl, he', ?_, fun hl => ?_, hleaves⟩
      · rw [List.map_cons, mergeFrom_merge heffect hm, hmerged]
      · rw [← hsettle hl]
        cases hn : g.vmenter with
        | none => cases hcut hn
        | some n =>
          rw [settleGroup, hn]
          show settle N e n _ = _
          rw [settle_follow heffect hgs, if_pos hm]
    · -- The next event is not merged, so the group is the one that is left.
      have hleaves : g.Leaves (g₂ :: gs) := by
        intro heffect
        refine ⟨g₂, gs, rfl, ?_⟩
        rw [← he.withoutEffect] at heffect
        rw [← he.mergesWith]
        simpa [heffect] using hmerge
      refine ⟨[], g, g₂ :: gs, e, rfl, he, mergeFrom_leave fun heffect e' he' => ?_,
        settleGroup_leaves hgs hcut he, .inl hleaves⟩
      obtain rfl : g₂.event = e' := by simpa using he'
      simpa [heffect] using hmerge

/-- From the first point of a group, `current_event` gets its event first. -/
theorem current_group (h : Grouped (g :: gs)) (hT : x :: T = (g :: gs).flatMap Group.points) :
    current N x T = settleGroup N g.event g gs := by
  rw [List.flatMap_cons] at hT
  unfold current
  cases h with
  | follow h =>
    -- The tape begins with the VMExit of the group.
    have hfetch : x.2.isVmexit = true → fetch x T = fetchVmexit (x :: T) := by
      intro hx
      simp [fetch, hx]
    cases h with
    | cut hg =>
      rw [List.flatMap_nil, List.append_nil] at hT
      have hx : x.2.isVmexit = true := by
        cases hT
        exact hg.1
      rw [hfetch hx, hT, fetchVmexit_cut_eq hg]
      rfl
    | cons hg hsane hgs =>
      have hx : x.2.isVmexit = true := by
        cases hT
        exact hg.1
      rw [hfetch hx, hT, fetchVmexit_whole hg hsane]
      rfl
  | head hg hfirst hgs =>
    rw [fetch_head hg hfirst hT]
    rfl

/-- The specification of `current_event` on a tape of groups: it gets the first of the merged events,
which ends with the group `g'`, and leaves those that follow it, unless the last event of the file is one
to be merged. -/
theorem current_groups (h : Grouped (g :: gs)) (hT : x :: T = (g :: gs).flatMap Group.points) :
    ∃ pre g' gs' e', g :: gs = pre ++ g' :: gs' ∧ g'.event.UpToStart e' ∧
      mergeEvents ((g :: gs).map Group.event) = e' :: mergeEvents (gs'.map Group.event) ∧
      (g'.Leaves gs' → current N x T = g'.settled e' gs') ∧ (g'.Leaves gs' ∨ gs' = []) := by
  have hgs : Follow gs ∧ (g.vmenter = none → gs = []) := by
    cases h with
    | follow h =>
      cases h with
      | cut hg => exact ⟨.nil, fun _ => rfl⟩
      | cons hg hsane hgs => exact ⟨hgs, nofun⟩
    | head hg hfirst hgs => exact ⟨hgs, nofun⟩
  rw [current_group h hT]
  exact settleGroup_follow hgs.1 g g.event hgs.2 (.refl _)

end Tape

end RvnSyncPoint
