import RvnSyncPoint.Sync.Settle

/-!
# Looking ahead to the end of the file

When `current_event` looks past every event that is to come. An event that merges with all the others
up to the end of the file leaves the look-ahead without an event to stop at: it ends in a seek to the
position before zero (`Settled.offEnd`), or, where everything is zero, does not end
(`Settled.hang`). Both are described here in terms of the points on the tape: `Tape.RunsOff` and
`Tape.Blank`.
-/

namespace RvnSyncPoint

/-- The points `v` and `y` have the same registers, as `are_values_equivalent` compares them. -/
def SyncPoint.SameValues (v y : SyncPoint) : Prop := v.context.values = y.context.values

/-- All the registers of a point that `are_values_equivalent` compares are zero. -/
def SyncPoint.Zeroed (v : SyncPoint) : Prop := v.context.values = Context.values {}

/-- No instruction is taken to be emulated between the VMExit `v` and the VMEnter `y`. -/
def SyncPoint.NotEmulated (v y : SyncPoint) : Prop :=
  v.type.alwaysEmulates = false ∧ (v.type = .VMX_EXIT_HLT ∨ y.rip = v.rip)

instance (v y : SyncPoint) : Decidable (v.SameValues y) :=
  inferInstanceAs (Decidable (v.context.values = y.context.values))

instance (v : SyncPoint) : Decidable v.Zeroed :=
  inferInstanceAs (Decidable (v.context.values = Context.values {}))

instance (v y : SyncPoint) : Decidable (v.NotEmulated y) :=
  inferInstanceAs (Decidable (_ ∧ (_ ∨ _)))

theorem SyncPoint.notEmulated_iff (k : ℕ) (v y : SyncPoint) :
    v.NotEmulated y ↔ (SyncEvent.start k v).emulation y.rip = false := by
  unfold NotEmulated SyncEvent.emulation SyncEvent.start
  by_cases h1 : v.type.alwaysEmulates = true
  · simp [h1]
  · by_cases h2 : v.type = .VMX_EXIT_HLT
    · simp [h2]
    · by_cases h3 : y.rip = v.rip
      · simp [h1, h2, h3]
      · simp [h1, h2, h3]

namespace Tape

variable {n : ℕ} {e e' : SyncEvent} {v x y : ℕ × SyncPoint} {T U pre : Tape}

/-! ## Events on a tape that begins with a VMExit -/

/-- Points before the first VMExit are skipped. -/
theorem fetchVmexit_append (hpre : ∀ z ∈ pre, z.2.isVmexit = false) :
    fetchVmexit (pre ++ T) = fetchVmexit T := by
  unfold fetchVmexit toVmexit
  rw [List.dropWhile_append_of_pos]
  intro z hz
  simp [hpre z hz]

/-- A VMExit at the end of the file. -/
theorem fetchVmexit_single (hv : v.2.isVmexit = true) :
    fetchVmexit [v] = .cut (SyncEvent.start v.1 v.2).last := by
  simp [fetchVmexit, toVmexit, hv, atVmexit]

/-- The event of a VMExit directly followed by a VMEnter. -/
def pair (v y : ℕ × SyncPoint) : SyncEvent := ((SyncEvent.start v.1 v.2).addData y.2).finished y.2

/-- An event without interrupt passes the checks. -/
theorem vmenter_pair (hy : y.2.isVmenter = true) :
    vmenter ((SyncEvent.start v.1 v.2).addData y.2) y T = .complete (pair v y) y T := by
  have hfin : ((SyncEvent.start v.1 v.2).addData y.2).finish y.2 y.1 = .ok (pair v y) := by
    simp [SyncEvent.finish, hy, SyncEvent.checkSanity, SyncEvent.start, SyncEvent.addData]
    rfl
  unfold vmenter
  rw [hfin]

theorem fetchVmexit_pair (hv : v.2.isVmexit = true) (hy : y.2.isVmenter = true) :
    fetchVmexit (v :: y :: T) = .complete (pair v y) y T := by
  have hint : y.2.isInterrupt = false := by
    have htype : y.2.type = .VMENTER := by simpa [SyncPoint.isVmenter] using hy
    simp only [SyncPoint.isInterrupt, htype]
    decide
  simp [fetchVmexit, toVmexit, hv, atVmexit, body, hint, vmenter_pair hy]

/-! ## Properties of the VMExits of a tape -/

/-- Every VMExit of the tape, with what follows it, has the property `P`. -/
def EveryVmexit (P : ℕ × SyncPoint → Tape → Prop) : Tape → Prop
  | [] => True
  | x :: T => (x.2.isVmexit = true → P x T) ∧ EveryVmexit P T

variable {P Q : ℕ × SyncPoint → Tape → Prop}

theorem everyVmexit_append (hpre : ∀ z ∈ pre, z.2.isVmexit = false) :
    EveryVmexit P (pre ++ T) ↔ EveryVmexit P T := by
  induction pre with
  | nil => rfl
  | cons z pre ih =>
    have hz := hpre z (by simp)
    rw [List.cons_append, EveryVmexit, ih fun w hw => hpre w (by simp [hw])]
    simp [hz]

theorem everyVmexit_none (h : ∀ z ∈ T, z.2.isVmexit = false) : EveryVmexit P T := by
  have happend := everyVmexit_append (P := P) (T := []) h
  rw [List.append_nil] at happend
  exact happend.mpr trivial

theorem EveryVmexit.imp (h : EveryVmexit P T) (hPQ : ∀ x T, P x T → Q x T) : EveryVmexit Q T := by
  induction T with
  | nil => trivial
  | cons z T ih => exact ⟨fun hz => hPQ z T (h.1 hz), ih h.2⟩

/-- A VMExit directly followed by a VMEnter. -/
theorem everyVmexit_pair (hv : v.2.isVmexit = true) (hy : y.2.isVmenter = true) :
    EveryVmexit P (v :: y :: T) ↔ P v (y :: T) ∧ EveryVmexit P T := by
  simp [EveryVmexit, hv, isVmexit_of_isVmenter hy]

end Tape

/-! ## Blank tapes -/

/-- An event of zeros, which merges with any other one. -/
def SyncEvent.Blank (e : SyncEvent) : Prop := e.withoutEffect = true ∧ e.mergesWith {} = true

theorem SyncEvent.blank_iff (e : SyncEvent) : e.Blank ↔
    (e.position ≠ 1 ∧ e.has_interrupt = false ∧ e.start_context.values = Context.values {}) ∧
      e.new_context.values = Context.values {} ∧ e.start_rip = 0 ∧
      e.is_instruction_emulation = false := by
  rw [Blank, withoutEffect_iff, mergesWith_iff]
  constructor
  · rintro ⟨⟨hpos, hint, hvalues⟩, hzero, hrip, hem⟩
    exact ⟨⟨hpos, hint, hvalues.trans hzero⟩, hzero, hrip, hem⟩
  · rintro ⟨⟨hpos, hint, hstart⟩, hzero, hrip, hem⟩
    exact ⟨⟨hpos, hint, hstart.trans hzero.symm⟩, hzero, hrip, hem⟩

/-- Two events that merge are blank together. -/
theorem SyncEvent.merge_blank {e e' : SyncEvent} (he : e.withoutEffect = true) :
    e.mergesWith e' = true ∧ (e.merge e').Blank ↔ e.Blank ∧ e'.Blank := by
  obtain ⟨hpos, hint, hvalues⟩ := e.withoutEffect_iff.mp he
  simp only [blank_iff, mergesWith_iff, merge]
  constructor
  · rintro ⟨⟨hmerge, hrip, hem⟩, ⟨hpos', hint', hstart⟩, hnew, hrip', hem'⟩
    have hzero : e.new_context.values = Context.values {} := hvalues.symm.trans hstart
    exact ⟨⟨⟨hpos, hint, hstart⟩, hzero, hrip.trans hrip', hem⟩,
      ⟨hpos', hint', hmerge.symm.trans hzero⟩, hnew, hrip', hem'⟩
  · rintro ⟨⟨⟨-, -, hstart⟩, hzero, hrip, hem⟩, ⟨hpos', hint', hstart'⟩, hnew', hrip', hem'⟩
    exact ⟨⟨hzero.trans hstart'.symm, hrip.trans hrip'.symm, hem⟩, ⟨hpos', hint', hstart⟩, hnew', hrip',
      hem'⟩

namespace Tape

variable {n : ℕ} {e e' : SyncEvent} {v x y : ℕ × SyncPoint} {T U pre : Tape}

/-- The VMExit `v`, followed by `T`, makes a blank event. -/
def BlankAt (v : ℕ × SyncPoint) (T : Tape) : Prop :=
  v.1 ≠ 1 ∧ v.2.Zeroed ∧ v.2.rip = 0 ∧
    (T = [] ∨ ∃ y U, T = y :: U ∧ y.2.isVmenter = true ∧ y.2.Zeroed ∧ v.2.NotEmulated y.2)

/-- Every VMExit of the tape makes a blank event. -/
def Blank (T : Tape) : Prop := EveryVmexit BlankAt T

/-- What is fetched from a blank tape: nothing, or a VMExit alone, or a VMExit with its VMEnter. -/
theorem Blank.cases (h : Blank T) : fetchVmexit T = .nothing ∨
    (∃ v, fetchVmexit T = .cut (SyncEvent.start v.1 v.2).last ∧ BlankAt v []) ∨
    ∃ v y U, fetchVmexit T = .complete (pair v y) y U ∧ BlankAt v (y :: U) ∧ Blank U := by
  obtain ⟨pre, hpre, hskip, hv⟩ := toVmexit_spec T
  rw [hpre] at h
  rw [hpre, fetchVmexit_append hskip]
  have h := (everyVmexit_append hskip).mp h
  match hT : toVmexit T, h with
  | [], _ => exact .inl rfl
  | [v], h =>
    have hvmexit := hv v _ hT
    exact .inr (.inl ⟨v, fetchVmexit_single hvmexit, h.1 hvmexit⟩)
  | v :: y :: U, h =>
    have hvmexit := hv v _ hT
    have hblank := h.1 hvmexit
    rcases hblank.2.2.2 with hnil | ⟨y', U', hcons, hy, -⟩
    · cases hnil
    · cases hcons
      exact .inr (.inr ⟨v, y, U, fetchVmexit_pair hvmexit hy, hblank, h.2.2⟩)

theorem BlankAt.pair (h : BlankAt v (y :: U)) : (pair v y).Blank := by
  obtain ⟨hpos, hzero, hrip, hnil | ⟨y', U', hcons, -, hzero', hem⟩⟩ := h
  · cases hnil
  · cases hcons
    exact (SyncEvent.blank_iff _).mpr
      ⟨⟨hpos, rfl, hzero⟩, hzero', hrip, (SyncPoint.notEmulated_iff v.1 _ _).mp hem⟩

/-- An event that the end of the file cuts is blank exactly if its tape is. -/
theorem cut_blank (h : fetchVmexit T = .cut e) : e.Blank ↔ Blank T := by
  constructor
  · intro he
    obtain ⟨⟨hpos, hint, hzero⟩, -, hrip, -⟩ := e.blank_iff.mp he
    obtain ⟨pre, v, mid, rfl, hskip, hv, hcut, hmid⟩ := fetchVmexit_cut h
    obtain rfl := hmid hint
    refine (everyVmexit_append hskip).mpr ⟨fun _ => ⟨?_, ?_, ?_, .inl rfl⟩, trivial⟩
    · have hstart := hcut.position
      exact fun h1 => hpos (hstart.trans h1)
    · exact (congrArg Context.values hcut.start_context).symm.trans hzero
    · exact hcut.start_rip.symm.trans hrip
  · intro hT
    rcases hT.cases with hn | ⟨v, hc, hpos, hzero, hrip, -⟩ | ⟨v, y, U, hc, -⟩
    · rw [h] at hn
      cases hn
    · rw [h] at hc
      cases hc
      exact (SyncEvent.blank_iff _).mpr ⟨⟨hpos, rfl, hzero⟩, rfl, hrip, rfl⟩
    · rw [h] at hc
      cases hc

/-- A complete event and what follows it are blank exactly if its tape is. -/
theorem complete_blank (h : fetchVmexit T = .complete e y U) : e.Blank ∧ Blank U ↔ Blank T := by
  -- A blank event is a pair of a VMExit and a VMEnter, for which the tape has to be blank there.
  constructor
  · rintro ⟨he, hU⟩
    obtain ⟨⟨hpos, hint, hzero⟩, hnew, hrip, hem⟩ := e.blank_iff.mp he
    obtain ⟨pre, v, mid, rfl, hskip, hv, hy, hends⟩ := fetchVmexit_complete h
    have hmid : mid = [] := by
      have hhas := hends.has_interrupt
      rw [hint] at hhas
      simpa [SyncEvent.start] using hhas
    subst hmid
    refine (everyVmexit_append hskip).mpr ((everyVmexit_pair hv hy).mpr ⟨⟨?_, ?_, ?_, .inr ?_⟩, hU⟩)
    · have hstart := hends.position
      exact fun h1 => hpos (hstart.trans h1)
    · exact (congrArg Context.values hends.start_context).symm.trans hzero
    · exact hends.start_rip.symm.trans hrip
    · refine ⟨y, U, rfl, hy, (congrArg Context.values hends.new_context).symm.trans hnew, ?_⟩
      exact (SyncPoint.notEmulated_iff v.1 _ _).mpr (hends.emulation.symm.trans hem)
  · intro hT
    rcases hT.cases with hn | ⟨v, hc, -⟩ | ⟨v, y, U, hc, hblank, hU⟩
    · rw [h] at hn
      cases hn
    · rw [h] at hc
      cases hc
    · rw [h] at hc
      cases hc
      exact ⟨hblank.pair, hU⟩

theorem malformed_not_blank {err : RuntimeError} (h : fetchVmexit T = .malformed err y U) :
    ¬ Blank T := by
  intro hT
  rcases hT.cases with hn | ⟨v, hc, -⟩ | ⟨v, y, U, hc, -⟩
  · rw [h] at hn
    cases hn
  · rw [h] at hc
    cases hc
  · rw [h] at hc
    cases hc

theorem settleCut_hang : settleCut n e = .hang ↔ e.Blank := by
  unfold settleCut SyncEvent.Blank
  rw [SyncEvent.mergesWith_lastEvent]
  split_ifs with he hm <;> simp_all

/-- Settling on a complete event does not end exactly if the event and all that follows are blank. -/
theorem settle_hang (e : SyncEvent) (x : ℕ × SyncPoint) (T : Tape) :
    settle n e x T = .hang ↔ e.Blank ∧ Blank T := by
  -- A blank event merges with every blank one, and with the end of the file, and stays blank.
  induction e, x, T using settle_induction with
  | stay e x T he =>
    rw [settle_stay he]
    simp [SyncEvent.Blank, he]
  | nothing e x T he hfetch =>
    rw [settle_nothing he hfetch]
    have hT : Blank T := everyVmexit_none (fetchVmexit_nothing hfetch)
    simp [SyncEvent.Blank, he, hT]
  | malformed e x T err y U he hfetch =>
    rw [settle_malformed he hfetch]
    simp [malformed_not_blank hfetch]
  | cut e x T e' he hfetch =>
    rw [settle_cut he hfetch, ← cut_blank hfetch, ← SyncEvent.merge_blank he]
    split_ifs with hm
    · rw [settleCut_hang]
      simp [hm]
    · simp [hm]
  | back e x T e' y U he hfetch hm =>
    rw [settle_back he hfetch hm, ← complete_blank hfetch, ← and_assoc, ← SyncEvent.merge_blank he]
    simp [hm]
  | merge e x T e' y U he hfetch hm ih =>
    rw [settle_merge he hfetch hm, ← complete_blank hfetch, ← and_assoc,
      ← SyncEvent.merge_blank he, ih]
    simp [hm]

/-- `current_event` does not end exactly if all that it finds is blank, in a file that has not just one
record. -/
theorem current_hang (hn : ∀ z ∈ x :: T, z.2.isVmexit = true → 1 ≤ z.1 ∧ z.1 ≤ n) :
    current n x T = .hang ↔ n ≠ 1 ∧ ¬ (x.2.isVmexit = false ∧ x.1 = 1) ∧ Blank (x :: T) := by
  by_cases hmissing : x.2.isVmexit = false ∧ x.1 = 1
  · have hfirst : (!x.2.isVmexit && x.1 == 1) = true := by simp [hmissing]
    rcases current_missing (n := n) (T := T) hfirst with ⟨e, -, h⟩ | ⟨err, y, U, -, h⟩ | ⟨e, y, U, -, h⟩
    · simp [h, hmissing]
    · simp [h, hmissing]
    · simp [h, hmissing]
  · unfold current fetch
    rw [if_neg (by simpa using hmissing)]
    -- A blank event is not at the position 1, so there is a second record.
    have hcount : ∀ (e' : SyncEvent) (v : ℕ × SyncPoint), v ∈ x :: T → v.2.isVmexit = true →
        e'.position = v.1 → e'.Blank → n ≠ 1 := by
      intro e' v hv hvmexit he' hblank
      have hpos := (e'.blank_iff.mp hblank).1.1
      have hle := hn v hv hvmexit
      omega
    cases hfetch : fetchVmexit (x :: T) with
    | nothing =>
      have hT : Blank (x :: T) := everyVmexit_none (fetchVmexit_nothing hfetch)
      simp [hmissing, hT]
    | cut e =>
      obtain ⟨pre, v, mid, hT, -, hv, hcut, -⟩ := fetchVmexit_cut hfetch
      have h1 := hcount e v (by simp [hT]) hv hcut.position
      simp only [settleCut_hang, ← cut_blank hfetch, hmissing, not_false_eq_true, true_and]
      exact ⟨fun he => ⟨h1 he, he⟩, fun h => h.2⟩
    | malformed err y U => simp [malformed_not_blank hfetch]
    | complete e y U =>
      obtain ⟨pre, v, mid, hT, -, hv, -, hends⟩ := fetchVmexit_complete hfetch
      have h1 := hcount e v (by simp [hT]) hv hends.position
      simp only [settle_hang e y U, ← complete_blank hfetch, hmissing, not_false_eq_true,
        true_and]
      exact ⟨fun h => ⟨h1 h.1, h⟩, fun h => h.2⟩

/-! ## Tapes that the look-ahead runs off -/

/-- The VMExit `v`, followed by `T`, makes an event that merges with all the others of the tape: a
VMEnter with the same registers follows it at once, and so is every later VMExit. Or else the file
ends right after it, and then it has the property `cut`. -/
def RunsOffAt (cut : ℕ × SyncPoint → Prop) (v : ℕ × SyncPoint) (T : Tape) : Prop :=
  v.1 ≠ 1 ∧ ((T = [] ∧ cut v) ∨ ∃ y U, T = y :: U ∧ y.2.isVmenter = true ∧ v.2.SameValues y.2 ∧
    EveryVmexit (fun w _ => v.2.SameValues w.2 ∧ v.2.rip = w.2.rip ∧ v.2.NotEmulated y.2) U)

/-- There is a VMExit on the tape, and every one of them makes an event that merges with the others. -/
def RunsOff (cut : ℕ × SyncPoint → Prop) (T : Tape) : Prop :=
  (∃ v ∈ T, v.2.isVmexit = true) ∧ EveryVmexit (RunsOffAt cut) T

/-- A VMExit that is the last record, with all its registers zero. -/
def LastZeroed (n : ℕ) (v : ℕ × SyncPoint) : Prop := v.1 = n ∧ v.2.Zeroed

variable {b : Prop}

/-- The conclusion of `settle_lost` about the event that is settled on and the tape that follows. -/
structure AllMerge (b : Prop) (n : ℕ) (e : SyncEvent) (T : Tape) : Prop where
  withoutEffect : e.withoutEffect = true
  merges : EveryVmexit (fun w _ => e.start_context.values = w.2.context.values ∧
    e.start_rip = w.2.rip ∧ e.is_instruction_emulation = false) T
  runsOff : EveryVmexit (RunsOffAt fun v => b ∧ LastZeroed n v) T

/-- An event without effect from the VMExit `v` to the VMEnter `y`, followed by a tape with which it
merges. -/
theorem AllMerge.at {mid : Tape} (h : AllMerge b n e U)
    (hends : (SyncEvent.start v.1 v.2).EndsAt e mid y) (hy : y.2.isVmenter = true) :
    mid = [] ∧ RunsOffAt (fun v => b ∧ LastZeroed n v) v (y :: U) := by
  obtain ⟨hpos, hint, hvalues⟩ := e.withoutEffect_iff.mp h.withoutEffect
  have hstart := congrArg Context.values hends.start_context
  have hnew := congrArg Context.values hends.new_context
  refine ⟨?_, fun h1 => hpos (hends.position.trans h1), .inr ⟨y, U, rfl, hy, ?_, ?_⟩⟩
  · have hhas := hends.has_interrupt
    rw [hint] at hhas
    simpa [SyncEvent.start] using hhas
  · exact hstart.symm.trans (hvalues.trans hnew)
  · refine h.merges.imp fun w _ hw => ⟨hstart.symm.trans hw.1, hends.start_rip.symm.trans hw.2.1, ?_⟩
    exact (SyncPoint.notEmulated_iff v.1 _ _).mpr (hends.emulation.symm.trans hw.2.2)

/-- The event `e` before the one that it merged with. -/
theorem AllMerge.of_merge {mid : Tape} (h : AllMerge b n (e.merge e') U)
    (he : e.withoutEffect = true) (hm : e.mergesWith e' = true)
    (hskip : ∀ z ∈ pre, z.2.isVmexit = false) (hv : v.2.isVmexit = true) (hy : y.2.isVmenter = true)
    (hends : (SyncEvent.start v.1 v.2).EndsAt e' mid y) :
    AllMerge b n e (pre ++ v :: (mid ++ y :: U)) := by
  obtain ⟨hvalues, hrip, hem⟩ := (e.mergesWith_iff e').mp hm
  obtain ⟨-, -, hself⟩ := e.withoutEffect_iff.mp he
  have hstart : e.start_context.values = e'.start_context.values := hself.trans hvalues
  -- The next event has an effect exactly if the merged one has, as their starts have the same values.
  have he' : e'.withoutEffect = true := by
    obtain ⟨hpos, hint, hnew⟩ := (SyncEvent.withoutEffect_iff _).mp h.withoutEffect
    exact (SyncEvent.withoutEffect_iff _).mpr ⟨hpos, hint, hstart.symm.trans hnew⟩
  have hnext : AllMerge b n e' U :=
    ⟨he', h.merges.imp fun w _ hw => ⟨hstart.symm.trans hw.1, hw.2⟩, h.runsOff⟩
  obtain ⟨rfl, hat⟩ := hnext.at hends hy
  have hmerge : e.start_context.values = v.2.context.values ∧ e.start_rip = v.2.rip ∧
      e.is_instruction_emulation = false :=
    ⟨hstart.trans (congrArg Context.values hends.start_context), hrip.trans hends.start_rip, hem⟩
  refine ⟨he, ?_, ?_⟩
  · refine (everyVmexit_append hskip).mpr ((everyVmexit_pair hv hy).mpr ⟨hmerge, ?_⟩)
    exact h.merges.imp fun w _ hw => ⟨hw.1, hrip.trans hw.2.1, hem⟩
  · exact (everyVmexit_append hskip).mpr ((everyVmexit_pair hv hy).mpr ⟨hat, h.runsOff⟩)

end Tape

/-- The look-ahead found no event to come; or, with `b`, it went back to a point before which the event
that it returns begins. -/
def Settled.Lost (b : Prop) : Settled → Prop
  | .offEnd _ => True
  | .back e q => b ∧ q ≤ e.position
  | _ => False

namespace Tape

variable {n : ℕ} {b : Prop} {e e' : SyncEvent} {v x y : ℕ × SyncPoint} {T U pre : Tape}

/-- Settling on an event cut after the VMExit `v`. -/
theorem settleCut_lost {mid : Tape} (h : (settleCut n e).Lost b) (hpos : e.position = v.1)
    (hstart : e.start_context.values = v.2.context.values) (hnew : e.new_context = {})
    (hmid : e.has_interrupt = false → mid = []) (hv : v.1 ≤ n) :
    mid = [] ∧ RunsOffAt (fun v => b ∧ LastZeroed n v) v [] := by
  unfold settleCut at h
  split_ifs at h with he hm
  · cases h
  · obtain ⟨hb, hle⟩ := h
    obtain ⟨hne, hint, hvalues⟩ := e.withoutEffect_iff.mp he
    refine ⟨hmid hint, fun h1 => hne (hpos.trans h1), .inl ⟨rfl, hb, by omega, ?_⟩⟩
    calc v.2.context.values = e.start_context.values := hstart.symm
      _ = e.new_context.values := hvalues
      _ = Context.values {} := congrArg Context.values hnew
  · cases h

/-- An event that is merged starts with the registers of the VMExit of the next one. -/
theorem merged_start (he : e.withoutEffect = true) (hm : e.mergesWith e' = true)
    (hstart : e'.start_context = v.2.context) : e.start_context.values = v.2.context.values := by
  obtain ⟨-, -, hself⟩ := e.withoutEffect_iff.mp he
  obtain ⟨hvalues, -, -⟩ := (e.mergesWith_iff e').mp hm
  calc e.start_context.values = e.new_context.values := hself
    _ = e'.start_context.values := hvalues
    _ = v.2.context.values := congrArg Context.values hstart

/-- Settling on a complete event gets lost only if the event merges with all that follow. -/
theorem settle_lost (e : SyncEvent) (x : ℕ × SyncPoint) (T : Tape)
    (hT : ∀ z ∈ T, e.position < z.1 ∧ z.1 ≤ n) (hsorted : T.Pairwise (fun y z => y.1 < z.1))
    (hlost : (settle n e x T).Lost b) : AllMerge b n e T := by
  induction e, x, T using settle_induction with
  | stay e x T he =>
    rw [settle_stay he] at hlost
    cases hlost
  | nothing e x T he hfetch =>
    -- No VMExit follows, so that there is nothing to say of those that do.
    have hnone := fetchVmexit_nothing hfetch
    exact ⟨he, everyVmexit_none hnone, everyVmexit_none hnone⟩
  | malformed e x T err y U he hfetch =>
    rw [settle_malformed he hfetch] at hlost
    cases hlost
  | cut e x T e' he hfetch =>
    rw [settle_cut he hfetch] at hlost
    obtain ⟨pre, v, mid, rfl, hskip, hv, hcut, hmid⟩ := fetchVmexit_cut hfetch
    have hvT := hT v (by simp)
    split_ifs at hlost with hm
    · obtain ⟨-, hrip, hem⟩ := (e.mergesWith_iff e').mp hm
      have hstart := merged_start (v := v) he hm hcut.start_context
      obtain ⟨rfl, hat⟩ := settleCut_lost (v := v) (e := e.merge e') hlost hcut.position hstart
        hcut.new_context hmid hvT.2
      refine ⟨he, ?_, ?_⟩
      · exact (everyVmexit_append hskip).mpr
          ⟨fun _ => ⟨hstart, hrip.trans hcut.start_rip, hem⟩, trivial⟩
      · exact (everyVmexit_append hskip).mpr ⟨fun _ => hat, trivial⟩
    · -- The reader went back to a later record than the event is at.
      have hpos : e'.position = v.1 := hcut.position
      have hle := hlost.2
      omega
  | back e x T e' y U he hfetch hm =>
    rw [settle_back he hfetch hm] at hlost
    obtain ⟨pre, v, mid, rfl, -, -, -, hends⟩ := fetchVmexit_complete hfetch
    have hvT := hT v (by simp)
    have hpos : e'.position = v.1 := hends.position
    have hle := hlost.2
    omega
  | merge e x T e' y U he hfetch hm ih =>
    rw [settle_merge he hfetch hm] at hlost
    obtain ⟨pre, v, mid, rfl, hskip, hv, hy, hends⟩ := fetchVmexit_complete hfetch
    have hpos : e'.position = v.1 := hends.position
    -- What is left of the tape comes after the VMExit of the event that was merged.
    have hafter := List.pairwise_cons.mp (List.pairwise_append.mp hsorted).2.1
    have hmerge := ih
      (fun z hz => ⟨hpos ▸ hafter.1 z (by simp [hz]), (hT z (by simp [hz])).2⟩)
      (List.pairwise_cons.mp (List.pairwise_append.mp hafter.2).2.1).2 hlost
    exact hmerge.of_merge he hm hskip hv hy hends

/-- `current_event` gets lost only on a tape that the look-ahead runs off. -/
theorem current_lost (hn : ∀ z ∈ x :: T, z.1 ≤ n)
    (hsorted : (x :: T).Pairwise (fun y z => y.1 < z.1)) (h : (current n x T).Lost b) :
    ¬ (x.2.isVmexit = false ∧ x.1 = 1) ∧ RunsOff (fun v => b ∧ LastZeroed n v) (x :: T) := by
  -- An event with an unknown start has an effect, so there is no look-ahead to get lost.
  by_cases hmissing : x.2.isVmexit = false ∧ x.1 = 1
  · have hfirst : (!x.2.isVmexit && x.1 == 1) = true := by simp [hmissing]
    rcases current_missing (n := n) (T := T) hfirst with ⟨e, -, h'⟩ | ⟨err, y, U, -, h'⟩ |
      ⟨e, y, U, -, h'⟩
    · simp [h', Settled.Lost] at h
    · simp [h', Settled.Lost] at h
    · simp [h', Settled.Lost] at h
  · unfold current fetch at h
    rw [if_neg (by simpa using hmissing)] at h
    refine ⟨hmissing, ?_⟩
    cases hfetch : fetchVmexit (x :: T) with
    | nothing =>
      rw [hfetch] at h
      dsimp only at h
      split_ifs at h <;> cases h
    | malformed err y U =>
      rw [hfetch] at h
      cases h
    | cut e =>
      rw [hfetch] at h
      obtain ⟨pre, v, mid, hT, hskip, hv, hcut, hmid⟩ := fetchVmexit_cut hfetch
      rw [hT] at hn ⊢
      obtain ⟨rfl, hat⟩ := settleCut_lost (v := v) h hcut.position
        (congrArg Context.values hcut.start_context) hcut.new_context hmid (hn v (by simp))
      exact ⟨⟨v, by simp, hv⟩, (everyVmexit_append hskip).mpr ⟨fun _ => hat, trivial⟩⟩
    | complete e y U =>
      rw [hfetch] at h
      obtain ⟨pre, v, mid, hT, hskip, hv, hy, hends⟩ := fetchVmexit_complete hfetch
      rw [hT] at hn hsorted ⊢
      have hafter := List.pairwise_cons.mp (List.pairwise_append.mp hsorted).2.1
      have hpos : e.position = v.1 := hends.position
      have hmerge := settle_lost e y U
        (fun z hz => ⟨hpos ▸ hafter.1 z (by simp [hz]), hn z (by simp [hz])⟩)
        (List.pairwise_cons.mp (List.pairwise_append.mp hafter.2).2.1).2 h
      obtain ⟨rfl, hat⟩ := hmerge.at hends hy
      exact ⟨⟨v, by simp, hv⟩,
        (everyVmexit_append hskip).mpr ((everyVmexit_pair hv hy).mpr ⟨hat, hmerge.runsOff⟩)⟩

end Tape

/-! ## Positions -/

/-- The event that is settled on is valid and begins at `p` or later; and the reader is left at a
position that is not before it, unless the look-ahead got lost. -/
def Settled.Between (p n : ℕ) : Settled → Prop
  | .stay e y _ => e.is_valid = true ∧ p ≤ e.position ∧ e.position ≤ y.1
  | .atEnd e => e.is_valid = true ∧ p ≤ e.position ∧ e.position ≤ n
  | .back e q => e.is_valid = true ∧ p ≤ e.position ∧ q ≤ n
  | _ => True

namespace Tape

variable {n p : ℕ} {e : SyncEvent} {x : ℕ × SyncPoint} {T : Tape}

theorem settleCut_between (hv : e.is_valid = true) (hp : p ≤ e.position) (hle : e.position ≤ n) :
    (settleCut n e).Between p n := by
  unfold settleCut
  split_ifs with he hm
  · trivial
  · exact ⟨hv, hp, le_rfl⟩
  · exact ⟨hv, hp, hle⟩

/-- The positions of the event that is settled on. -/
theorem settle_between (e : SyncEvent) (x : ℕ × SyncPoint) (T : Tape) (hv : e.is_valid = true)
    (hp : p ≤ e.position) (hx : e.position ≤ x.1) (hn : ∀ z ∈ x :: T, z.1 ≤ n)
    (hsorted : (x :: T).Pairwise (fun y z => y.1 < z.1)) : (settle n e x T).Between p n := by
  -- What is fetched begins after `x`, so a merge moves the event forward.
  induction e, x, T using settle_induction with
  | stay e x T he =>
    rw [settle_stay he]
    exact ⟨hv, hp, hx⟩
  | nothing e x T he hfetch =>
    rw [settle_nothing he hfetch]
    split_ifs <;> trivial
  | malformed e x T err y U he hfetch =>
    rw [settle_malformed he hfetch]
    trivial
  | cut e x T e' he hfetch =>
    obtain ⟨pre, v, mid, rfl, -, -, hcut, -⟩ := fetchVmexit_cut hfetch
    have hxv := (List.pairwise_cons.mp hsorted).1 v (by simp)
    have hvn := hn v (by simp)
    have hpos : e'.position = v.1 := hcut.position
    have hmerged : (e.merge e').position = v.1 := hcut.position
    rw [settle_cut he hfetch]
    split_ifs with hm
    · exact settleCut_between (e := e.merge e') hcut.is_valid (by omega) (by omega)
    · exact ⟨hv, hp, by omega⟩
  | back e x T e' y U he hfetch hm =>
    obtain ⟨pre, v, mid, rfl, -, -, -, hends⟩ := fetchVmexit_complete hfetch
    have hvn := hn v (by simp)
    have hpos : e'.position = v.1 := hends.position
    rw [settle_back he hfetch hm]
    exact ⟨hv, hp, by omega⟩
  | merge e x T e' y U he hfetch hm ih =>
    obtain ⟨pre, v, mid, rfl, -, -, -, hends⟩ := fetchVmexit_complete hfetch
    have hxv := (List.pairwise_cons.mp hsorted).1 v (by simp)
    have hpos : (e.merge e').position = v.1 := hends.position
    have hafter := List.pairwise_cons.mp
      (List.pairwise_append.mp (List.pairwise_cons.mp hsorted).2).2.1
    have hvy := hafter.1 y (by simp)
    rw [settle_merge he hfetch hm]
    apply ih hends.is_valid
    · omega
    · omega
    · intro z hz
      exact hn z (by simp only [List.mem_cons, List.mem_append] at hz ⊢; tauto)
    · exact (List.pairwise_append.mp hafter.2).2.1

/-- The positions of the event that `current_event` settles on. -/
theorem current_between (hx : 1 ≤ x.1) (hn : ∀ z ∈ x :: T, z.1 ≤ n)
    (hsorted : (x :: T).Pairwise (fun y z => y.1 < z.1)) : (current n x T).Between x.1 n := by
  have hle := List.pairwise_cons.mp hsorted
  -- Whatever the event starts with is not before the current point.
  have hx' : ∀ z ∈ x :: T, x.1 ≤ z.1 := by
    intro z hz
    rcases List.mem_cons.mp hz with rfl | hz
    · exact le_rfl
    · exact (hle.1 z hz).le
  by_cases hmissing : (!x.2.isVmexit && x.1 == 1) = true
  · rcases current_missing (n := n) (T := T) hmissing with ⟨e, hbody, h⟩ | ⟨err, y, U, -, h⟩ |
      ⟨e, y, U, hbody, h⟩
    · have hcut := (body_cut hbody).1
      have hle : e.position ≤ n := hcut.position.le.trans (hn x (by simp))
      rw [h]
      exact ⟨hcut.is_valid, hcut.position.ge, hle⟩
    · rw [h]
      trivial
    · obtain ⟨mid, hmid, -, hends⟩ := body_complete hbody
      have hy := hx' y (by simp [hmid])
      rw [h]
      exact ⟨hends.is_valid, hends.position.ge, hends.position.le.trans hy⟩
  · unfold current fetch
    rw [if_neg hmissing]
    cases hfetch : fetchVmexit (x :: T) with
    | nothing =>
      dsimp only
      split_ifs with h1
      · exact ⟨rfl, h1 ▸ hn x (by simp), h1.ge⟩
      · trivial
    | malformed err y U => trivial
    | cut e =>
      obtain ⟨pre, v, mid, hT, -, -, hcut, -⟩ := fetchVmexit_cut hfetch
      have hv := hn v (by simp [hT])
      exact settleCut_between hcut.is_valid ((hx' v (by simp [hT])).trans hcut.position.ge)
        (hcut.position.le.trans hv)
    | complete e y U =>
      obtain ⟨pre, v, mid, hT, -, -, -, hends⟩ := fetchVmexit_complete hfetch
      have hpv := hx' v (by simp [hT])
      rw [hT] at hn hsorted
      have hafter := List.pairwise_cons.mp (List.pairwise_append.mp hsorted).2.1
      refine settle_between e y U hends.is_valid (hpv.trans hends.position.ge)
        (hends.position.le.trans (hafter.1 y (by simp)).le) ?_ ?_
      · intro z hz
        exact hn z (by simp only [List.mem_cons, List.mem_append] at hz ⊢; tauto)
      · exact (List.pairwise_append.mp hafter.2).2.1

end Tape

end RvnSyncPoint
