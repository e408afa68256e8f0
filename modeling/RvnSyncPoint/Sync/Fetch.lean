import RvnSyncPoint.Sync.Load

/-!
# Fetching an event

`fetch_new_event` as a function of the tape: `Tape.fetch` gives the event that the points to come make,
and the point that the reader then stands on. `fetchNewEvent_spec` is its specification: from a reader
in a good state, `fetch_new_event` ends with what `Tape.fetch` says. At the end of the file it gives
the same last event over and over (`fetchNewEvent_ended`).
-/

namespace RvnSyncPoint

open LittleEndian Loop StreamableFile

/-- The points that a reader will return, each with its position. -/
abbrev Tape := List (ℕ × SyncPoint)

/-- What fetching an event makes of a tape. -/
inductive Fetched where
  /-- The file ends before a VMExit is found. -/
  | nothing
  /-- The file ends inside the event. -/
  | cut (e : SyncEvent)
  /-- The points of the event do not fit together. The exception is thrown at the point `x`. -/
  | malformed (err : RuntimeError) (x : ℕ × SyncPoint) (T : Tape)
  /-- The event ends with the point `x`, and `T` is to come. -/
  | complete (e : SyncEvent) (x : ℕ × SyncPoint) (T : Tape)

namespace Tape

/-- An event on its last point. -/
def vmenter (e : SyncEvent) (x : ℕ × SyncPoint) (T : Tape) : Fetched :=
  match e.finish x.2 x.1 with
  | .ok e => .complete e x T
  | .error err => .malformed err x T

/-- An event on the point that follows its interrupt. -/
def afterInterrupt (e : SyncEvent) (interrupt_sp : SyncPoint) (x : ℕ × SyncPoint) (T : Tape) :
    Fetched :=
  if !x.2.isEquivalent interrupt_sp then .malformed (.interruptContext x.1) x T
  else vmenter (e.addData x.2) x T

/-- An event on its interrupt, which may be reported twice. -/
def interrupt (e : SyncEvent) (x : ℕ × SyncPoint) : Tape → Fetched
  | [] => .cut (e.interrupt x.2).last
  | y :: T =>
    if y.2.isInterrupt then
      if !y.2.isEquivalent x.2 then .malformed (.duplicatedInterrupt y.1) y T
      else
        match T with
        | [] => .cut (e.interrupt x.2).last
        | z :: T => afterInterrupt (e.interrupt x.2) x.2 z T
    else afterInterrupt (e.interrupt x.2) x.2 y T

/-- An event on the point after its VMExit. -/
def body (e : SyncEvent) (x : ℕ × SyncPoint) (T : Tape) : Fetched :=
  if x.2.isInterrupt then interrupt (e.addData x.2) x T else vmenter (e.addData x.2) x T

/-- The tape from its first VMExit on. -/
def toVmexit (T : Tape) : Tape := T.dropWhile fun x => !x.2.isVmexit

/-- The event whose VMExit is the first point of the tape. -/
def atVmexit : Tape → Fetched
  | [] => .nothing
  | [x] => .cut (SyncEvent.start x.1 x.2).last
  | x :: y :: T => body (.start x.1 x.2) y T

/-- The next event that begins with a VMExit. -/
def fetchVmexit (T : Tape) : Fetched := atVmexit (toVmexit T)

/-- The next event from a reader on the point `x`, with `T` to come. Its VMExit may be missing if `x`
is the first record. -/
def fetch (x : ℕ × SyncPoint) (T : Tape) : Fetched :=
  if !x.2.isVmexit && x.1 == 1 then body (.startUnknown x.1) x T else fetchVmexit (x :: T)

end Tape

/-! ## The specification of `fetch_new_event` -/

/-- What a call that does not touch the event cache leaves as it was. -/
def SameCache (f g : SyncFile) : Prop :=
  g.current_event = f.current_event ∧ g.last_valid_position = f.last_valid_position

theorem SameCache.rfl {f : SyncFile} : SameCache f f := ⟨Eq.refl _, Eq.refl _⟩

theorem SameCache.trans {f g h : SyncFile} (hfg : SameCache f g) (hgh : SameCache g h) :
    SameCache f h := ⟨hgh.1.trans hfg.1, hgh.2.trans hfg.2⟩

/-- The outcome of `fetch_new_event` called on `f`, and the reader that it leaves, are as fetching from
the tape says. -/
inductive Fetched.Gives (R : Recording) (f : SyncFile) : Fetched → Outcome SyncFile SyncEvent → Prop
  | nothing {g : SyncFile} (h : R.After g []) (hc : SameCache f g) : Gives R f .nothing (.returned {} g)
  | cut {g : SyncFile} {e : SyncEvent} (h : R.After g []) (hc : SameCache f g) :
    Gives R f (.cut e) (.returned e g)
  | malformed {g : SyncFile} {err : RuntimeError} {x : ℕ × SyncPoint} {T : Tape}
    (h : R.After g (x :: T)) (hc : SameCache f g) : Gives R f (.malformed err x T) (.thrown err g)
  | complete {g : SyncFile} {e : SyncEvent} {x : ℕ × SyncPoint} {T : Tape}
    (h : R.After g (x :: T)) (hc : SameCache f g) : Gives R f (.complete e x T) (.returned e g)

/-- What is said of a call on `g` holds of one on `f` that got to `g`. -/
theorem Fetched.Gives.of_sameCache {R : Recording} {f g : SyncFile} {x : Fetched}
    {o : Outcome SyncFile SyncEvent} (h : x.Gives R g o) (hc : SameCache f g) : x.Gives R f o := by
  cases h with
  | nothing h hc' => exact .nothing h (hc.trans hc')
  | cut h hc' => exact .cut h (hc.trans hc')
  | malformed h hc' => exact .malformed h (hc.trans hc')
  | complete h hc' => exact .complete h (hc.trans hc')

section

variable {R : Recording} {f : SyncFile} {x y : ℕ × SyncPoint} {T : Tape}

/-- A reader in a good state is on its current point, with its tape to come. -/
theorem Reading.after (h : Reading R f) : R.After f ((f.position, f.current) :: R.tape f) :=
  ⟨h, rfl, rfl, rfl⟩

/-- A point on the tape is valid. -/
theorem Recording.After.valid_of_mem (h : R.After f (x :: T)) (hy : y ∈ T) : y.2.valid = true := by
  obtain ⟨-, -, -, rfl⟩ := h
  exact (Recording.mem_tape hy).2.valid

/-- `next()` without a cached event, when the tape is at its end. -/
theorem Recording.After.next_nil (h : R.After f [x]) (hc : f.current_event.is_valid = false) :
    ∃ g, f.next = some g ∧ R.After g [] ∧ SameCache f g ∧ g.current.valid = false := by
  obtain ⟨hf, -, -, htape⟩ := h
  obtain ⟨g, hg, hafter, hev, hlvp⟩ := next_reading hf
  rw [htape] at hafter
  refine ⟨g, hg, hafter, ⟨?_, hlvp⟩, hafter.1.not_valid⟩
  simp [hev, SyncEvent.dropped, hc]

/-- `next()` without a cached event, when there is a point to come. -/
theorem Recording.After.next_cons (h : R.After f (x :: y :: T))
    (hc : f.current_event.is_valid = false) :
    ∃ g, f.next = some g ∧ R.After g (y :: T) ∧ SameCache f g ∧ g.current.valid = true := by
  have hvalid := h.valid_of_mem (y := y) (by simp)
  obtain ⟨hf, -, -, htape⟩ := h
  obtain ⟨g, hg, hafter, hev, hlvp⟩ := next_reading hf
  rw [htape] at hafter
  refine ⟨g, hg, hafter, ⟨?_, hlvp⟩, ?_⟩
  · simp [hev, SyncEvent.dropped, hc]
  · rw [hafter.2.2.1]
    exact hvalid

theorem fetchVmenter_spec (e : SyncEvent) (h : R.After f (x :: T)) :
    (Tape.vmenter e x T).Gives R f (f.fetchVmenter e) := by
  have hpos := h.2.1
  have hcur := h.2.2.1
  unfold SyncFile.fetchVmenter Tape.vmenter
  rw [hpos, hcur]
  cases e.finish x.2 x.1 with
  | ok e => exact .complete h .rfl
  | error err => exact .malformed h .rfl

theorem fetchAfterInterrupt_spec (e : SyncEvent) (isp : SyncPoint) (h : R.After f (x :: T)) :
    (Tape.afterInterrupt e isp x T).Gives R f (f.fetchAfterInterrupt e isp) := by
  have hpos := h.2.1
  have hcur := h.2.2.1
  unfold SyncFile.fetchAfterInterrupt Tape.afterInterrupt
  simp only [hpos, hcur]
  split_ifs with heq
  · exact .malformed h .rfl
  · exact fetchVmenter_spec _ h

theorem fetchInterrupt_spec (e : SyncEvent) (h : R.After f (x :: T))
    (hc : f.current_event.is_valid = false) :
    ∃ o, f.fetchInterrupt e = some o ∧ (Tape.interrupt e x T).Gives R f o := by
  have hcur := h.2.2.1
  cases T with
  | nil =>
    -- The file ends on the interrupt.
    obtain ⟨g, hg, hend, hsame, hv⟩ := h.next_nil hc
    refine ⟨.returned (e.interrupt x.2).last g, ?_, .cut hend hsame⟩
    simp [SyncFile.fetchInterrupt, hg, hv, hcur]
  | cons y T =>
    obtain ⟨g, hg, hy, hsame, hv⟩ := h.next_cons hc
    have hgcur := hy.2.2.1
    have hgpos := hy.2.1
    rw [hgcur] at hv
    by_cases hint : y.2.isInterrupt
    · by_cases heq : y.2.isEquivalent x.2
      · -- The interrupt is reported twice: its second report is skipped.
        cases T with
        | nil =>
          obtain ⟨k, hk, hend, hsame', hv'⟩ := hy.next_nil (hsame.1 ▸ hc)
          refine ⟨.returned (e.interrupt x.2).last k, ?_, ?_⟩
          · simp [SyncFile.fetchInterrupt, hg, hv, hcur, hgcur, hint, heq, hk, hv']
          · simpa [Tape.interrupt, hint, heq] using .cut hend (hsame.trans hsame')
        | cons z T =>
          obtain ⟨k, hk, hz, hsame', hv'⟩ := hy.next_cons (hsame.1 ▸ hc)
          refine ⟨k.fetchAfterInterrupt (e.interrupt x.2) x.2, ?_, ?_⟩
          · simp [SyncFile.fetchInterrupt, hg, hv, hcur, hgcur, hint, heq, hk, hv']
          · have hgives := fetchAfterInterrupt_spec (e.interrupt x.2) x.2 hz
            simpa [Tape.interrupt, hint, heq] using hgives.of_sameCache (hsame.trans hsame')
      · -- A second interrupt in another context is an error.
        refine ⟨.thrown (.duplicatedInterrupt y.1) g, ?_, ?_⟩
        · simp [SyncFile.fetchInterrupt, hg, hv, hcur, hgcur, hgpos, hint, heq]
        · simpa [Tape.interrupt, hint, heq] using .malformed hy hsame
    · -- Any other point must be the VMEnter.
      refine ⟨g.fetchAfterInterrupt (e.interrupt x.2) x.2, ?_, ?_⟩
      · simp [SyncFile.fetchInterrupt, hg, hv, hcur, hgcur, hint]
      · have hgives := fetchAfterInterrupt_spec (e.interrupt x.2) x.2 hy
        simpa [Tape.interrupt, hint] using hgives.of_sameCache hsame

theorem fetchBody_spec (e : SyncEvent) (h : R.After f (x :: T))
    (hc : f.current_event.is_valid = false) :
    ∃ o, f.fetchBody e = some o ∧ (Tape.body e x T).Gives R f o := by
  have hcur := h.2.2.1
  unfold SyncFile.fetchBody Tape.body
  simp only [hcur]
  split_ifs with hint
  · exact fetchInterrupt_spec _ h hc
  · exact ⟨_, rfl, fetchVmenter_spec _ h⟩

/-- How the loop that looks for a VMExit ends: on the first VMExit of the tape, or at the end of the
file. -/
theorem skipToVmexit_spec (h : R.After f (x :: T)) (hc : f.current_event.is_valid = false) :
    (∃ y U g, Tape.toVmexit (x :: T) = y :: U ∧
      SyncFile.skipToVmexit false f = some (.inr g) ∧ R.After g (y :: U) ∧ SameCache f g) ∨
    ∃ g, Tape.toVmexit (x :: T) = [] ∧
      SyncFile.skipToVmexit false f = some (.inl g) ∧ R.After g [] ∧ SameCache f g := by
  -- The induction is on the points that are left, one of which each pass skips.
  induction T generalizing f x with
  | nil =>
    have hcur := h.2.2.1
    by_cases hx : x.2.isVmexit
    · exact .inl ⟨x, [], f, by simp [Tape.toVmexit, hx],
        loop_leave (by simp [hcur, hx]), h, .rfl⟩
    · obtain ⟨g, hg, hend, hsame, hv⟩ := h.next_nil hc
      exact .inr ⟨g, by simp [Tape.toVmexit, hx],
        loop_leave (by simp [hcur, hx, hg, hv]), hend, hsame⟩
  | cons y T ih =>
    have hcur := h.2.2.1
    by_cases hx : x.2.isVmexit
    · exact .inl ⟨x, y :: T, f, by simp [Tape.toVmexit, hx],
        loop_leave (by simp [hcur, hx]), h, .rfl⟩
    · -- A point that is no VMExit is skipped.
      obtain ⟨g, hg, hy, hsame, hv⟩ := h.next_cons hc
      have hskip : SyncFile.skipToVmexit false f = SyncFile.skipToVmexit false g :=
        loop_again (by simp [hcur, hx, hg, hv])
      have htape : Tape.toVmexit (x :: y :: T) = Tape.toVmexit (y :: T) := by
        simp [Tape.toVmexit, hx]
      rw [hskip, htape]
      rcases ih hy (hsame.1 ▸ hc) with ⟨z, U, k, hz, hk, hafter, hsame'⟩ | ⟨k, hz, hk, hend, hsame'⟩
      · exact .inl ⟨z, U, k, hz, hk, hafter, hsame.trans hsame'⟩
      · exact .inr ⟨k, hz, hk, hend, hsame.trans hsame'⟩

/-- The specification of `fetch_new_event` in a good state. -/
theorem fetchNewEvent_spec (h : R.After f (x :: T)) (hc : f.current_event.is_valid = false) :
    ∃ o, f.fetchNewEvent = some o ∧ (Tape.fetch x T).Gives R f o := by
  have hpos := h.2.1
  have hcur := h.2.2.1
  by_cases hmissing : (!x.2.isVmexit && x.1 == 1) = true
  · -- The first VMExit is missing: the loop leaves at once, and `x` is in the event.
    obtain ⟨o, ho, hgives⟩ := fetchBody_spec (.startUnknown x.1) h hc
    refine ⟨o, ?_, by rw [Tape.fetch, if_pos hmissing]; exact hgives⟩
    have hskip : SyncFile.skipToVmexit true f = some (.inr f) := loop_leave (by simp)
    unfold SyncFile.fetchNewEvent
    simp only [hpos, hcur, hmissing, hskip, Option.bind_eq_bind, Option.bind_some, if_true]
    exact ho
  · rw [Tape.fetch, if_neg hmissing, Tape.fetchVmexit]
    have hmissing' : (!x.2.isVmexit && x.1 == 1) = false := by simpa using hmissing
    rcases skipToVmexit_spec h hc with ⟨y, U, g, hy, hskip, hafter, hsame⟩ |
      ⟨g, hy, hskip, hend, hsame⟩
    · have hgcur := hafter.2.2.1
      have hgpos := hafter.2.1
      rw [hy]
      cases U with
      | nil =>
        -- The file ends on the VMExit.
        obtain ⟨k, hk, hend, hsame', hv⟩ := hafter.next_nil (hsame.1 ▸ hc)
        refine ⟨.returned (SyncEvent.start y.1 y.2).last k, ?_, .cut hend (hsame.trans hsame')⟩
        simp [SyncFile.fetchNewEvent, hpos, hcur, hmissing', hskip, hgcur, hgpos, hk, hv]
      | cons z U =>
        -- The event goes on with the point after its VMExit.
        obtain ⟨k, hk, hz, hsame', hv⟩ := hafter.next_cons (hsame.1 ▸ hc)
        have hck : k.current_event.is_valid = false := by rw [(hsame.trans hsame').1]; exact hc
        obtain ⟨o, ho, hgives⟩ := fetchBody_spec (.start y.1 y.2) hz hck
        refine ⟨o, ?_, hgives.of_sameCache (hsame.trans hsame')⟩
        simp [SyncFile.fetchNewEvent, hpos, hcur, hmissing', hskip, hgcur, hgpos, hk, hv, ho]
    · rw [hy]
      refine ⟨.returned {} g, ?_, .nothing hend hsame⟩
      simp [SyncFile.fetchNewEvent, hpos, hcur, hmissing', hskip]

/-- The event that is fetched at the end of a file of `n` records. -/
def lastEvent (n : ℕ) : SyncEvent := (SyncEvent.start n (zeroPoint 0)).last

/-- At the end of the file, `fetch_new_event` takes the zero point for a VMExit. -/
theorem fetchNewEvent_ended (h : Ended R f) :
    f.fetchNewEvent = some (.returned (lastEvent f.position) f) := by
  obtain ⟨v, hv⟩ := h.current
  have hnext := h.next
  have hvmexit : (zeroPoint v).isVmexit = true := rfl
  have hvalid : (zeroPoint v).valid = false := rfl
  have hskip : SyncFile.skipToVmexit false f = some (.inr f) := loop_leave (by simp [hv, hvmexit])
  simp [SyncFile.fetchNewEvent, hv, hvmexit, hskip, hnext, hvalid]
  rfl

end

end RvnSyncPoint
