import RvnSyncPoint.Sync.Encode
import RvnSyncPoint.Sync.Fetched

/-!
# Interrupts that an event does not report

Of two successive interrupts, `fetch_new_event` reports the first and takes the second for another
report of the same one, when the registers are the same (`is_equivalent`). It does not compare the
vectors and the error codes. So every interrupt that is read for an event is the reported one exactly
when two such interrupts have the same vector and error code (`noneSwallowed_iff`). What `next()` drops
as identical is compared with `operator==`, which does look at both.

The readers are arbitrary: nothing is asked of the file, nor of the calls made before.
-/

namespace RvnSyncPoint

open Loop StreamableFile

/-! ## The records that `next()` reads -/

/-- Passes of the read loop over `f`, started after the point `prev`, lead to `g`. -/
inductive Passes (prev : SyncPoint) (f : SyncFile) : SyncFile → Prop
  | first {g : SyncFile} (h : f.readPass = some g) : Passes prev f g
  | again {g k : SyncFile} (before : Passes prev f g)
    (hsame : (prev.operatorEq g.current && !g.eof) = true) (h : g.readPass = some k) : Passes prev f k

/-- `next()` on `f` reads a record, which puts the reader in the state `g`. -/
def SyncFile.Reads (f g : SyncFile) : Prop := f.eof = false ∧ Passes f.current f g

section

variable {prev : SyncPoint} {f g h : SyncFile}

/-- The loop goes on from a record that is identical to the point before. -/
theorem Passes.skips (hp : Passes prev f g) (hsame : (prev.operatorEq g.current && !g.eof) = true) :
    SyncFile.skipIdentical prev f = SyncFile.skipIdentical prev g := by
  induction hp with
  | first hpass =>
    exact loop_again (by
      simp only [hpass, hsame, Option.bind_eq_bind, Option.bind_some, if_true]
      rfl)
  | again before hsame' hpass ih =>
    rw [ih hsame']
    exact loop_again (by
      simp only [hpass, hsame, Option.bind_eq_bind, Option.bind_some, if_true]
      rfl)

/-- It leaves with the first record that is not. -/
theorem Passes.leaves (hp : Passes prev f g) (hne : (prev.operatorEq g.current && !g.eof) = false) :
    SyncFile.skipIdentical prev f = some g := by
  have hleave {k : SyncFile} (hpass : k.readPass = some g) : SyncFile.skipIdentical prev k = some g :=
    loop_leave (by
      simp only [hpass, hne, Option.bind_eq_bind, Option.bind_some]
      rfl)
  cases hp with
  | first hpass => exact hleave hpass
  | again before hsame hpass =>
    rw [before.skips hsame]
    exact hleave hpass

/-- What `next()` reads is the point that it leaves, or one that is identical to the point before. -/
theorem SyncFile.Reads.next (hr : f.Reads h) (hnext : f.next = some g) :
    f.current.operatorEq h.current = true ∨ g = h.dropEvent := by
  obtain ⟨heof, hp⟩ := hr
  cases hsame : f.current.operatorEq h.current && !h.eof with
  | true => exact .inl (Bool.and_eq_true_iff.mp hsame).1
  | false =>
    rw [SyncFile.next, heof, hp.leaves hsame] at hnext
    exact .inr (Option.some.inj hnext).symm

/-- `next()` reads the point that it leaves, unless it was at the end of the file. -/
theorem SyncFile.reads_of_next (heof : f.eof = false) (hnext : f.next = some g) :
    ∃ h, f.Reads h ∧ g = h.dropEvent := by
  unfold SyncFile.next at hnext
  rw [heof] at hnext
  obtain ⟨h, hskip, rfl⟩ := Option.map_eq_some_iff.mp hnext
  -- Every state of the loop is reached by passes, or is the first.
  have hpass : ∀ k, (k = f ∨ Passes f.current f k ∧ (f.current.operatorEq k.current && !k.eof) = true) →
      ∀ l, k.readPass = some l → Passes f.current f l := by
    rintro k (rfl | ⟨hp, hsame⟩) l hl
    · exact .first hl
    · exact .again hp hsame hl
  refine ⟨h, ⟨heof, ?_⟩, rfl⟩
  refine loop_inv
    (fun k => k = f ∨ Passes f.current f k ∧ (f.current.operatorEq k.current && !k.eof) = true)
    (Passes f.current f) ?_ ?_ f h (.inl rfl) hskip
  · intro k l hk hstep
    obtain ⟨m, hm, hstep⟩ := Option.bind_eq_some_iff.mp hstep
    split_ifs at hstep with hsame
    · cases hstep
      exact .inr ⟨hpass k hk _ hm, hsame⟩
    · cases hstep
  · intro k l hk hstep
    obtain ⟨m, hm, hstep⟩ := Option.bind_eq_some_iff.mp hstep
    split_ifs at hstep with hsame
    · cases hstep
    · cases hstep
      exact hpass k hk _ hm

theorem SyncFile.dropEvent_current (f : SyncFile) : f.dropEvent.current = f.current := by
  rw [SyncFile.dropEvent_eq]

/-- Points that `operator==` identifies have the same error code. -/
theorem SyncPoint.operatorEq_error_code {p q : SyncPoint} (heq : p.operatorEq q = true) :
    p.fault_error_code = q.fault_error_code := by
  rw [operatorEq_iff] at heq
  have hcode := congrArg SyncPoint.fault_error_code heq
  exact hcode

end

/-! ## The interrupts of an event -/

/-- The event that `fetch_new_event` starts, and the reader on the first point after its VMExit, or on
the first record if the VMExit is missing. There is none if the file ends before. -/
def SyncFile.toBody (f : SyncFile) : Option (SyncEvent × SyncFile) := do
  if !f.current.isVmexit && f.position == 1 then return (.startUnknown f.position, f)
  match ← f.skipToVmexit false with
  | .inl _ => none
  | .inr f =>
    let e := SyncEvent.start f.position f.current
    let f ← f.next
    if f.current.valid then return (e, f) else none

/-- Fetching from `f` starts the event `e` and finds two successive interrupts: those on which `i` and
`j` are. -/
structure TwoInterrupts (f : SyncFile) (e : SyncEvent) (i j : SyncFile) : Prop where
  body : f.toBody = some (e, i)
  first : i.current.isInterrupt = true
  next : i.next = some j
  valid : j.current.valid = true
  second : j.current.isInterrupt = true

/-- Fetching from `f` reads, after the VMExit, a record that puts the reader in the state `h`: by the
`next()` after the first interrupt, or by that after the second. -/
def SyncFile.ReadsAfter (f h : SyncFile) : Prop :=
  ∃ e i, f.toBody = some (e, i) ∧ i.current.isInterrupt = true ∧
    (i.Reads h ∨ ∃ j, TwoInterrupts f e i j ∧ j.Reads h)

/-- The point is an interrupt with the vector and the error code that the event reports. -/
def SyncEvent.Reports (e : SyncEvent) (p : SyncPoint) : Prop :=
  p.interrupt_vector = e.interrupt_vector ∧ p.fault_error_code = e.fault_error_code

/-- Every interrupt that is read for the event fetched from `f`, but not reported by it, is a report of
the same interrupt. -/
def SyncFile.NoneSwallowed (f : SyncFile) : Prop :=
  ∀ e g h, f.fetchNewEvent = some (.returned e g) → f.ReadsAfter h → h.current.valid = true →
    h.current.isInterrupt = true → e.Reports h.current

/-- The event `e` returns on the point of `z`, which follows the interrupts: the file ends there, or the
registers are those of the interrupt `p`, and the point is a VMEnter on which the event is sane. -/
def SyncEvent.ReturnsOn (e : SyncEvent) (p : SyncPoint) (z : SyncFile) : Prop :=
  z.current.valid = false ∨ z.current.isEquivalent p = true ∧ z.current.isVmenter = true ∧
    ((e.addData z.current).finished z.current).checkSanity = .ok ()

/-- Two successive interrupts with the same registers, on which an event is built that returns, have the
same vector and error code. -/
def SyncFile.InterruptsAgree (f : SyncFile) : Prop :=
  ∀ e i j z, TwoInterrupts f e i j → j.current.isEquivalent i.current = true → j.next = some z →
    ((e.addData i.current).interrupt i.current).ReturnsOn i.current z →
    j.current.interrupt_vector = i.current.interrupt_vector ∧
      j.current.fault_error_code = i.current.fault_error_code

section

variable {e e' : SyncEvent} {f g i j h z : SyncFile}

/-- `fetch_new_event` goes on from the first point after its VMExit. -/
theorem fetchNewEvent_of_toBody (hbody : f.toBody = some (e, i)) :
    f.fetchNewEvent = i.fetchBody e := by
  unfold SyncFile.toBody at hbody
  unfold SyncFile.fetchNewEvent
  cases hmissing : (!f.current.isVmexit && f.position == 1) with
  | true =>
    rw [if_pos hmissing] at hbody
    cases hbody
    have hskip : SyncFile.skipToVmexit true f = some (.inr f) := loop_leave (by simp)
    simp only [hskip, Option.bind_eq_bind, Option.bind_some, if_true]
  | false =>
    rw [if_neg (by simp [hmissing])] at hbody
    obtain ⟨r, hr, hbody⟩ := Option.bind_eq_some_iff.mp hbody
    cases r with
    | inl k => cases hbody
    | inr k =>
      obtain ⟨l, hl, hbody⟩ := Option.bind_eq_some_iff.mp hbody
      split_ifs at hbody with hvalid
      cases hbody
      simp [hr, hl, hvalid]

/-- An event that ends on a point reports what it reported before. -/
theorem SyncEvent.reports_finished (e : SyncEvent) (v p : SyncPoint) :
    ((e.addData v).finished v).Reports p ↔ e.Reports p := Iff.rfl

/-- How fetching returns on the point that follows the interrupt: the point is a VMEnter with the same
registers. -/
theorem fetchAfterInterrupt_returned {p : SyncPoint}
    (ho : z.fetchAfterInterrupt e p = .returned e' g) :
    z.current.isEquivalent p = true ∧ z.current.isVmenter = true ∧
      ((e.addData z.current).finished z.current).checkSanity = .ok () ∧
      e' = (e.addData z.current).finished z.current := by
  unfold SyncFile.fetchAfterInterrupt at ho
  dsimp only at ho
  split_ifs at ho with hequiv
  unfold SyncFile.fetchVmenter at ho
  cases hfinish : (e.addData z.current).finish z.current z.position with
  | error err =>
    rw [hfinish] at ho
    cases ho
  | ok e'' =>
    rw [hfinish] at ho
    cases ho
    obtain ⟨hvmenter, hsane⟩ := (SyncEvent.finish_ok_iff _ _ _).mp ⟨_, hfinish⟩
    exact ⟨by simpa using hequiv, hvmenter, hsane, (SyncEvent.finish_ok hfinish).2⟩

/-- Fetching returns on such a point. -/
theorem fetchAfterInterrupt_returns {p : SyncPoint} (hequiv : z.current.isEquivalent p = true)
    (hvmenter : z.current.isVmenter = true)
    (hsane : ((e.addData z.current).finished z.current).checkSanity = .ok ()) :
    z.fetchAfterInterrupt e p = .returned ((e.addData z.current).finished z.current) z := by
  unfold SyncFile.fetchAfterInterrupt
  dsimp only
  rw [if_neg (by simp [hequiv])]
  unfold SyncFile.fetchVmenter
  rw [SyncEvent.finish_eq hvmenter hsane]

/-- How fetching an event returns from its interrupt. -/
theorem fetchInterrupt_returned (ho : i.fetchInterrupt e = some (.returned e' g)) :
    (∀ p, e'.Reports p ↔ (e.interrupt i.current).Reports p) ∧ ∃ j, i.next = some j ∧
      (j.current.valid = true → j.current.isInterrupt = true →
        j.current.isEquivalent i.current = true ∧
          ∃ z, j.next = some z ∧ (e.interrupt i.current).ReturnsOn i.current z) := by
  obtain ⟨j, hj, ho⟩ := Option.bind_eq_some_iff.mp ho
  split_ifs at ho with hvalid hint hequiv
  · cases ho
    exact ⟨fun p => Iff.rfl, g, hj, fun h => by simp [h] at hvalid⟩
  · cases ho
  · obtain ⟨z, hz, ho⟩ := Option.bind_eq_some_iff.mp ho
    have hsame : j.current.isEquivalent i.current = true := by simpa using hequiv
    split_ifs at ho with hend
    · cases ho
      exact ⟨fun p => Iff.rfl, j, hj, fun _ _ => ⟨hsame, g, hz, .inl (by simpa using hend)⟩⟩
    · obtain ⟨hz', hvmenter, hsane, rfl⟩ := fetchAfterInterrupt_returned (Option.some.inj ho)
      exact ⟨fun p => Iff.rfl, j, hj, fun _ _ => ⟨hsame, z, hz, .inr ⟨hz', hvmenter, hsane⟩⟩⟩
  · obtain ⟨-, -, -, rfl⟩ := fetchAfterInterrupt_returned (Option.some.inj ho)
    exact ⟨fun p => Iff.rfl, j, hj, fun _ hint' => absurd hint' hint⟩

/-- Fetching returns an event from two interrupts with the same registers, if it returns on the point
after them. -/
theorem TwoInterrupts.returns (htwo : TwoInterrupts f e i j)
    (hequiv : j.current.isEquivalent i.current = true) (hz : j.next = some z)
    (hreturns : ((e.addData i.current).interrupt i.current).ReturnsOn i.current z) :
    ∃ e' g, f.fetchNewEvent = some (.returned e' g) ∧
      ∀ p, e'.Reports p ↔ ((e.addData i.current).interrupt i.current).Reports p := by
  rw [fetchNewEvent_of_toBody htwo.body]
  unfold SyncFile.fetchBody SyncFile.fetchInterrupt
  simp only [htwo.first, htwo.next, htwo.valid, htwo.second, hequiv, hz, Option.bind_eq_bind,
    Option.bind_some, if_true, Bool.not_true, Bool.false_eq_true, if_false]
  rcases hreturns with hend | ⟨hz', hvmenter, hsane⟩
  · exact ⟨((e.addData i.current).interrupt i.current).last, z, by rw [hend]; rfl, fun p => Iff.rfl⟩
  · cases hvalid : z.current.valid with
    | false =>
      exact ⟨((e.addData i.current).interrupt i.current).last, z, rfl, fun p => Iff.rfl⟩
    | true =>
      exact ⟨_, z, congrArg some (fetchAfterInterrupt_returns hz' hvmenter hsane),
        SyncEvent.reports_finished _ z.current⟩

/-- Two interrupts that an event is built from, and that do not agree. -/
theorem TwoInterrupts.not_noneSwallowed (htwo : TwoInterrupts f e i j)
    (hequiv : j.current.isEquivalent i.current = true) (hz : j.next = some z)
    (hreturns : ((e.addData i.current).interrupt i.current).ReturnsOn i.current z)
    (hne : ¬ (j.current.interrupt_vector = i.current.interrupt_vector ∧
      j.current.fault_error_code = i.current.fault_error_code)) : ¬ f.NoneSwallowed := by
  intro hnone
  obtain ⟨e', g, hfetch, hreports⟩ := htwo.returns hequiv hz hreturns
  have heof : i.eof = false := by
    -- At the end of the file, `next()` would leave the first interrupt as it is.
    cases heof : i.eof with
    | false => rfl
    | true =>
      have hnext := htwo.next
      rw [SyncFile.next, if_pos heof] at hnext
      cases hnext
      exact absurd ⟨rfl, rfl⟩ hne
  obtain ⟨h, hreads, rfl⟩ := SyncFile.reads_of_next heof htwo.next
  have hsecond := hnone e' g h hfetch ⟨e, i, htwo.body, htwo.first, .inl hreads⟩
    (by rw [← h.dropEvent_current]; exact htwo.valid)
    (by rw [← h.dropEvent_current]; exact htwo.second)
  rw [h.dropEvent_current] at hne
  exact hne ((hreports _).mp hsecond)

/-- Every interrupt that is read for an event is the one that the event reports, exactly when two
successive interrupts that an event is built from have the same vector and error code. -/
theorem noneSwallowed_iff (f : SyncFile) : f.NoneSwallowed ↔ f.InterruptsAgree := by
  constructor
  · intro hnone e i j z htwo hequiv hz hreturns
    by_contra hne
    exact htwo.not_noneSwallowed hequiv hz hreturns hne hnone
  · intro hagree e' g h hfetch hafter hvalid hint
    obtain ⟨e, i, hbody, hfirst, hreads⟩ := hafter
    have hfetched := fetchNewEvent_of_toBody hbody
    rw [hfetch, SyncFile.fetchBody] at hfetched
    simp only [hfirst, if_true] at hfetched
    obtain ⟨hreports, j, hj, hreturned⟩ := fetchInterrupt_returned hfetched.symm
    rw [hreports]
    -- What is the same as the first interrupt, or as the second one, is reported.
    have hsame : i.current.operatorEq h.current = true →
        ((e.addData i.current).interrupt i.current).Reports h.current := fun heq =>
      ⟨(SyncPoint.operatorEq_vector heq).symm, (SyncPoint.operatorEq_error_code heq).symm⟩
    have hsecond : j.current.valid = true → j.current.isInterrupt = true →
        ((e.addData i.current).interrupt i.current).Reports j.current := by
      intro hjvalid hjint
      obtain ⟨hequiv, z, hz, hon⟩ := hreturned hjvalid hjint
      exact hagree e i j z ⟨hbody, hfirst, hj, hjvalid, hjint⟩ hequiv hz hon
    rcases hreads with hreads | ⟨j', htwo, hreads⟩
    · rcases hreads.next hj with heq | rfl
      · exact hsame heq
      · rw [h.dropEvent_current] at hsecond
        exact hsecond hvalid hint
    · obtain rfl : j' = j := Option.some.inj (htwo.next.symm.trans hj)
      obtain ⟨-, z, hz, hon⟩ := hreturned htwo.valid htwo.second
      rcases hreads.next hz with heq | rfl
      · have hreport := hsecond htwo.valid htwo.second
        exact ⟨(SyncPoint.operatorEq_vector heq).symm.trans hreport.1,
          (SyncPoint.operatorEq_error_code heq).symm.trans hreport.2⟩
      · -- The event does not return on a third interrupt.
        rw [SyncEvent.ReturnsOn, h.dropEvent_current] at hon
        rcases hon with hend | ⟨-, hvmenter, -⟩
        · rw [hvalid] at hend
          cases hend
        · have htype : h.current.type = .INTERRUPT := of_decide_eq_true hint
          have htype' : h.current.type = .VMENTER := of_decide_eq_true hvmenter
          rw [htype] at htype'
          exact absurd htype' (by decide)

/-! ## On a recording -/

/-- The first point after the VMExit, on the tape of a recording. -/
theorem Recording.After.toBody {R : Recording} {x y n : ℕ × SyncPoint} {T U : Tape}
    (h : R.After f (x :: T)) (hc : f.current_event.is_valid = false)
    (hmissing : (!x.2.isVmexit && x.1 == 1) = false) (hT : Tape.toVmexit (x :: T) = y :: n :: U) :
    ∃ i, f.toBody = some (.start y.1 y.2, i) ∧ R.After i (n :: U) ∧ SameCache f i := by
  rcases skipToVmexit_spec h hc with ⟨y', U', k, hy, hskip, hk, hsame⟩ | ⟨k, hnil, -⟩
  · obtain ⟨rfl, rfl⟩ := List.cons.inj (hT.symm.trans hy)
    obtain ⟨i, hi, hafter, hsame', hvalid⟩ := hk.next_cons (hsame.1 ▸ hc)
    have hpos := h.2.1
    have hcur := h.2.2.1
    have hkpos := hk.2.1
    have hkcur := hk.2.2.1
    refine ⟨i, ?_, hafter, hsame.trans hsame'⟩
    unfold SyncFile.toBody
    rw [hpos, hcur, hmissing]
    simp [hskip, hi, hvalid, hkpos, hkcur]
  · rw [hT] at hnil
    cases hnil

/-- A recording of a VMExit, two interrupts with different vectors, and a VMEnter. -/
def twoVectors : Recording :=
  .ofRecords [.simple 1 1 5 7, .simple 0x120 2 5 7, .simple 0x121 3 5 7, .simple 0xff 4 5 7]
    (by decide) (by decide)

/-- The second interrupt is swallowed. -/
theorem not_noneSwallowed : ¬ ∀ (R : Recording) (data : Option (List UInt8)) (f : SyncFile),
    Loaded R data f → f.NoneSwallowed := by
  intro halways
  obtain ⟨f, hf⟩ : ∃ f, Loaded twoVectors none f := Recording.ofRecords_loaded
  obtain ⟨hpos, hcur, hevent, -⟩ := hf.fields
  have htape : twoVectors.tape f = [(1, .simple 1 1 5 7), (2, .simple 0x120 2 5 7),
      (3, .simple 0x121 3 5 7), (4, { SyncPoint.simple 0xff 4 5 7 with interrupt_vector := 0x21 })] :=
    Recording.ofRecords_tape hf
  have hafter := hf.reading.after
  rw [hpos, hcur, htape] at hafter
  have hc : f.current_event.is_valid = false := by rw [hevent]
  obtain ⟨i, hbody, hi, hsame⟩ := hafter.toBody hc rfl rfl
  obtain ⟨j, hnext, hj, hsame', hvalid⟩ := hi.next_cons (hsame.1 ▸ hc)
  obtain ⟨z, hz, hlast, -, -⟩ := hj.next_cons ((hsame.trans hsame').1 ▸ hc)
  have hicur := hi.2.2.1
  have hjcur := hj.2.2.1
  have hzcur := hlast.2.2.1
  have htwo : TwoInterrupts f _ i j :=
    ⟨hbody, by rw [hicur]; rfl, hnext, hvalid, by rw [hjcur]; rfl⟩
  refine htwo.not_noneSwallowed ?_ hz (.inr ⟨?_, ?_, ?_⟩) ?_ (halways twoVectors none f hf)
  · rw [hicur, hjcur]
    decide
  · rw [hicur, hzcur]
    decide
  · rw [hzcur]
    decide
  · rw [hicur, hzcur]
    decide
  · rw [hicur, hjcur]
    decide

end

end RvnSyncPoint
