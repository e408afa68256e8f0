import RvnSyncPoint.Sync.Dump
import RvnSyncPoint.Sync.Interrupts
import RvnSyncPoint.Sync.Reload
import RvnSyncPoint.Sync.Terminates

/-!
# Sane events

`check_sanity` runs on an event when its VMEnter is found, and `current_event` then replaces the start
of the event by that of the events without effect before it. The checks still hold of what it returns:
they look at one register of the start, CR2, and along a chain of merges it does not change
(`SyncEvent.Checked.merge`). Nothing is asked of the files that were loaded, and the cached event is
checked in every state that calls reach (`Reachable.checked`).
-/

namespace RvnSyncPoint

open Loop StreamableFile

/-- What `check_sanity` asks of an event with an interrupt. -/
structure SyncEvent.Sane (e : SyncEvent) : Prop where
  /-- The instruction that was emulated is not the one that is interrupted. -/
  emulation : e.is_instruction_emulation = true → e.start_rip ≠ e.interrupt_rip
  /-- Only a page fault changes CR2. -/
  cr2 : e.new_context.cr2 ≠ e.start_context.cr2 → e.interrupt_vector = 0x0e
  /-- A fault does not wait for another instruction. -/
  fault : e.interrupt_vector < 0x20 → e.start_rip = e.interrupt_rip

/-- The event is sane, if it is a complete one with an interrupt, and known from its VMExit on. -/
def SyncEvent.Checked (e : SyncEvent) : Prop :=
  e.is_valid = true → e.is_last_event = false → e.is_first_event_context_unknown = false →
    e.has_interrupt = true → e.Sane

section

variable {f g : SyncFile} {e e' e_next : SyncEvent}

/-! ## The events that are fetched -/

theorem SyncEvent.checked_of_checkSanity (h : e.checkSanity = .ok ()) : e.Checked := by
  intro _ _ hknown hint
  unfold checkSanity at h
  rw [hknown, hint] at h
  simp only [Bool.not_false, Bool.and_self, if_true] at h
  split_ifs at h with hemulation hcr2 hfault
  exact ⟨by simpa using hemulation, by simpa using hcr2, by simpa using hfault⟩

/-- Nothing is asked of an event that the file ends in. -/
theorem SyncEvent.last_checked (e : SyncEvent) : e.last.Checked := by
  intro _ hlast
  cases hlast

theorem fetchVmenter_checked (ho : f.fetchVmenter e = .returned e' g) : e'.Checked := by
  unfold SyncFile.fetchVmenter at ho
  cases hfinish : e.finish f.current f.position with
  | error err =>
    rw [hfinish] at ho
    cases ho
  | ok e'' =>
    rw [hfinish] at ho
    cases ho
    obtain ⟨-, hsane⟩ := (SyncEvent.finish_ok_iff _ _ _).mp ⟨_, hfinish⟩
    obtain ⟨-, rfl⟩ := SyncEvent.finish_ok hfinish
    exact SyncEvent.checked_of_checkSanity hsane

theorem fetchAfterInterrupt_checked {isp : SyncPoint}
    (ho : f.fetchAfterInterrupt e isp = .returned e' g) : e'.Checked := by
  obtain ⟨-, -, hsane, rfl⟩ := fetchAfterInterrupt_returned ho
  exact SyncEvent.checked_of_checkSanity hsane

theorem fetchInterrupt_checked (ho : f.fetchInterrupt e = some (.returned e' g)) : e'.Checked := by
  obtain ⟨j, -, ho⟩ := Option.bind_eq_some_iff.mp ho
  split_ifs at ho with hend hint hequiv
  · cases ho
    exact SyncEvent.last_checked _
  · cases ho
  · obtain ⟨z, -, ho⟩ := Option.bind_eq_some_iff.mp ho
    split_ifs at ho with hend'
    · cases ho
      exact SyncEvent.last_checked _
    · exact fetchAfterInterrupt_checked (Option.some.inj ho)
  · exact fetchAfterInterrupt_checked (Option.some.inj ho)

theorem fetchBody_checked (ho : f.fetchBody e = some (.returned e' g)) : e'.Checked := by
  unfold SyncFile.fetchBody at ho
  dsimp only at ho
  split_ifs at ho with hint
  · exact fetchInterrupt_checked ho
  · exact fetchVmenter_checked (Option.some.inj ho)

/-- Every way in which `fetch_new_event` returns an event passes the checks. -/
theorem fetchNewEvent_checked (ho : f.fetchNewEvent = some (.returned e g)) : e.Checked := by
  obtain ⟨r, -, ho⟩ := Option.bind_eq_some_iff.mp ho
  cases r with
  | inl k =>
    -- There is no VMExit ahead, and the event is not valid.
    cases ho
    intro hvalid
    cases hvalid
  | inr k =>
    dsimp only at ho
    split_ifs at ho with hmissing
    · exact fetchBody_checked ho
    · obtain ⟨j, -, ho⟩ := Option.bind_eq_some_iff.mp ho
      split_ifs at ho with hend
      · cases ho
        exact SyncEvent.last_checked _
      · exact fetchBody_checked ho

/-! ## Merges -/

/-- The values of two contexts are the same only if CR2 is. -/
theorem Context.cr2_of_values {c d : Context} (h : c.values = d.values) : c.cr2 = d.cr2 :=
  calc c.cr2 = c.values.cr2 := rfl
    _ = d.values.cr2 := by rw [h]
    _ = d.cr2 := rfl

/-- An event that merges with one without effect stays sane: CR2 at the start of the one is what it is
at the start of the other. -/
theorem SyncEvent.Checked.merge (h : e_next.Checked) (heffect : e.withoutEffect = true)
    (hmerge : e.mergesWith e_next = true) : (e.merge e_next).Checked := by
  obtain ⟨-, -, hsame⟩ := (SyncEvent.withoutEffect_iff e).mp heffect
  obtain ⟨hagain, -, -⟩ := (SyncEvent.mergesWith_iff e e_next).mp hmerge
  have hcr2 : e.start_context.cr2 = e_next.start_context.cr2 :=
    Context.cr2_of_values (hsame.trans hagain)
  intro hvalid hlast hknown hint
  obtain ⟨hemulation, hchange, hfault⟩ := h hvalid hlast hknown hint
  refine ⟨hemulation, fun hne => hchange ?_, hfault⟩
  rw [← hcr2]
  exact hne

/-! ## What calls keep -/

/-- The cached event passes the checks. -/
def SyncFile.CacheChecked (f : SyncFile) : Prop := f.current_event.Checked

/-- `next()` keeps the cached event or forgets it. -/
theorem cacheChecked_keptByNext : KeptByNext SyncFile.CacheChecked := by
  refine keptByNext_of_readPass (fun f g h _ hpass => ?_) fun f h => ?_
  · obtain ⟨-, -, -, hcache⟩ := readPass_frame hpass
    unfold SyncFile.CacheChecked
    rw [hcache]
    exact h
  · unfold SyncFile.dropEvent
    split_ifs
    · intro hvalid
      cases hvalid
    · exact h

/-- A seek reads at most one record. -/
theorem SyncFile.CacheChecked.seek (h : f.CacheChecked) {q : ℕ} (hg : f.seek q = some g) :
    g.CacheChecked := by
  unfold SyncFile.seek at hg
  split_ifs at hg
  · cases hg
    exact h
  · cases hg
    exact h
  · obtain ⟨k, hk, hg⟩ := Option.bind_eq_some_iff.mp hg
    cases hg
    have hsought : k.CacheChecked := by
      refine cacheChecked_keptByNext _ k ?_ hk
      exact h
    exact hsought

/-- The loop of `current_event`, on an event that passes the checks. -/
theorem SyncFile.CacheChecked.merge {o : Outcome SyncFile SyncEvent} (h : f.CacheChecked)
    (he : e.Checked) (ho : loop SyncFile.mergePass (e, f) = some o) :
    o.state.CacheChecked ∧ ∀ e' g, o = .returned e' g → e'.Checked := by
  refine loop_inv (fun s => s.1.Checked ∧ s.2.CacheChecked)
    (fun o => o.state.CacheChecked ∧ ∀ e' g, o = .returned e' g → e'.Checked) ?_ ?_ (e, f) o ⟨he, h⟩ ho
  · -- Each merge is with an event that was just fetched.
    rintro ⟨e, f⟩ ⟨e', f'⟩ ⟨he, h⟩ hstep
    dsimp only [SyncFile.mergePass] at hstep he h ⊢
    split_ifs at hstep with heffect
    · obtain ⟨r, hr, hstep⟩ := Option.bind_eq_some_iff.mp hstep
      cases r with
      | thrown err g => cases hstep
      | returned e_next g =>
        dsimp only at hstep
        split_ifs at hstep with hmerge
        · cases hstep
          exact ⟨(fetchNewEvent_checked hr).merge heffect hmerge,
            cacheChecked_keptByNext.fetchNewEvent h hr⟩
        · obtain ⟨k, -, hstep⟩ := Option.bind_eq_some_iff.mp hstep
          cases hstep
    · cases hstep
  · rintro ⟨e, f⟩ o ⟨he, h⟩ hstep
    dsimp only [SyncFile.mergePass] at hstep he h ⊢
    split_ifs at hstep with heffect
    · obtain ⟨r, hr, hstep⟩ := Option.bind_eq_some_iff.mp hstep
      have hfetched := cacheChecked_keptByNext.fetchNewEvent h hr
      cases r with
      | thrown err g =>
        cases hstep
        exact ⟨hfetched, fun _ _ hthrown => by cases hthrown⟩
      | returned e_next g =>
        dsimp only at hstep
        split_ifs at hstep with hmerge
        · cases hstep
        · obtain ⟨k, hk, hstep⟩ := Option.bind_eq_some_iff.mp hstep
          cases hstep
          exact ⟨hfetched.seek hk, fun _ _ hret => by cases hret; exact he⟩
    · cases hstep
      exact ⟨h, fun _ _ hret => by cases hret; exact he⟩

/-- `current_event` returns an event that passes the checks, and caches no other. -/
theorem SyncFile.CacheChecked.currentEvent {o : Outcome SyncFile SyncEvent} (h : f.CacheChecked)
    (ho : f.currentEvent = some o) :
    o.state.CacheChecked ∧ ∀ e g, o = .returned e g → e.Checked := by
  unfold SyncFile.currentEvent at ho
  split_ifs at ho with hcached
  · cases ho
    exact ⟨h, fun _ _ hret => by cases hret; exact h⟩
  · obtain ⟨r, hr, ho⟩ := Option.bind_eq_some_iff.mp ho
    have hfetched := cacheChecked_keptByNext.fetchNewEvent h hr
    cases r with
    | thrown err g =>
      cases ho
      exact ⟨hfetched, fun _ _ hthrown => by cases hthrown⟩
    | returned e g =>
      obtain ⟨r', hr', ho⟩ := Option.bind_eq_some_iff.mp ho
      obtain ⟨hkept, hmerged⟩ := hfetched.merge (fetchNewEvent_checked hr) hr'
      cases r' with
      | thrown err k =>
        cases ho
        exact ⟨hkept, fun _ _ hthrown => by cases hthrown⟩
      | returned e' k =>
        cases ho
        have he' := hmerged e' k rfl
        exact ⟨he', fun _ _ hret => by cases hret; exact he'⟩

theorem SyncFile.CacheChecked.backToVmexit {q : ℕ} (h : f.CacheChecked)
    (hg : f.backToVmexit q = some g) : g.CacheChecked := by
  refine loop_inv (fun s => s.2.CacheChecked) SyncFile.CacheChecked ?_ ?_ (q, f) g h hg
  · rintro ⟨q, f⟩ ⟨q', f'⟩ h hstep
    dsimp only at hstep h ⊢
    split_ifs at hstep
    · obtain ⟨k, hk, hstep⟩ := Option.bind_eq_some_iff.mp hstep
      obtain ⟨rfl, rfl⟩ := Prod.mk.inj (Sum.inl.inj (Option.some.inj hstep))
      exact h.seek hk
    · cases hstep
  · rintro ⟨q, f⟩ g h hstep
    dsimp only at hstep h ⊢
    split_ifs at hstep
    · obtain ⟨k, -, hstep⟩ := Option.bind_eq_some_iff.mp hstep
      cases hstep
    · cases hstep
      exact h

theorem SyncFile.CacheChecked.advanceTo {q : ℕ} {o : Outcome SyncFile Unit} (h : f.CacheChecked)
    (ho : f.advanceTo q = some o) : o.state.CacheChecked := by
  obtain ⟨k, hk, ho⟩ := Option.bind_eq_some_iff.mp ho
  have hsought := h.seek hk
  split_ifs at ho
  · cases ho
    exact hsought
  · obtain ⟨m, hm, ho⟩ := Option.bind_eq_some_iff.mp ho
    obtain ⟨r, hr, ho⟩ := Option.bind_eq_some_iff.mp ho
    obtain ⟨hkept, -⟩ := (hsought.backToVmexit hm).currentEvent hr
    cases r with
    | thrown err k =>
      cases ho
      exact hkept
    | returned e k =>
      cases ho
      exact hkept
  · cases ho
    exact hsought

/-- A call keeps it, whether it returns or throws. -/
theorem SyncFile.CacheChecked.call {c : Call} {o : Outcome SyncFile Value} (h : f.CacheChecked)
    (hcall : c.run f = some o) : o.state.CacheChecked := by
  cases c with
  | next =>
    obtain ⟨k, hk, rfl⟩ := Option.map_eq_some_iff.mp hcall
    exact cacheChecked_keptByNext f k h hk
  | currentEvent =>
    obtain ⟨r, hr, rfl⟩ := Option.map_eq_some_iff.mp hcall
    obtain ⟨hkept, -⟩ := h.currentEvent hr
    cases r <;> exact hkept
  | advanceTo q =>
    obtain ⟨r, hr, rfl⟩ := Option.map_eq_some_iff.mp hcall
    have hkept := h.advanceTo hr
    cases r <;> exact hkept
  | seekFromEnd p =>
    cases hcall
    unfold Outcome.state SyncFile.seekFromEnd
    split_ifs <;> exact h
  | validate =>
    cases hcall
    rw [validate_eq]
    exact h
  | isValid => cases hcall; exact h
  | eof => cases hcall; exact h
  | current => cases hcall; exact h
  | position => cases hcall; exact h
  | lastValidPosition => cases hcall; exact h
  | syncPointCount => cases hcall; exact h

/-- `load` does not touch the cached event. -/
theorem load_keeps_event {file data : Option (List UInt8)} (hload : (f.load file data).state = some g) :
    g.current_event = f.current_event := by
  unfold SyncFile.load at hload
  dsimp only at hload
  split_ifs at hload
  · cases hload; rfl
  · cases hload; rfl
  · cases hload; rfl
  · cases hload; rfl
  · cases hload; rfl
  · cases hload
  · cases hload; rfl
  · unfold SyncFile.loadData at hload
    dsimp only at hload
    split_ifs at hload
    · cases hload; rfl
    · cases hload; rfl
    · cases hload; rfl

/-- In every state that calls reach, the cached event passes the checks. -/
theorem Reachable.checked (h : Reachable f) : f.CacheChecked := by
  induction h with
  | new u =>
    intro hvalid
    cases hvalid
  | load h hload ih =>
    unfold SyncFile.CacheChecked
    rw [load_keeps_event hload]
    exact ih
  | call h hcall ih => exact ih.call hcall

end

/-- In every state that loads and calls reach, each event with an interrupt that `current_event` returns,
if it is complete and known from its VMExit on, is sane. -/
theorem currentEvent_sane (f g : SyncFile) (e : SyncEvent) (hreach : Reachable f)
    (he : f.currentEvent = some (.returned e g)) (hvalid : e.is_valid = true)
    (hlast : e.is_last_event = false) (hknown : e.is_first_event_context_unknown = false)
    (hint : e.has_interrupt = true) : e.Sane :=
  (hreach.checked.currentEvent he).2 e g rfl hvalid hlast hknown hint

/-- A recording of a page fault, at the instruction that the event starts with. -/
def pageFault : Recording :=
  .ofRecords [.simple 0 1 7 5, .simple 0x10e 2 7 5, .simple 0xff 3 7 5] (by decide) (by decide)

/-- The event of the recording `pageFault`. -/
theorem currentEvent_sane_pageFault : ∃ f e g, Reachable f ∧
    f.currentEvent = some (.returned e g) ∧ e.interrupt_vector = 0x0e ∧ e.Sane := by
  obtain ⟨f₀, hf₀⟩ : ∃ f, Loaded pageFault none f := Recording.ofRecords_loaded
  -- The point of the VMEnter keeps the vector of the interrupt.
  have htape : pageFault.tape f₀ = [(1, .simple 0 1 7 5), (2, .simple 0x10e 2 7 5),
      (3, { SyncPoint.simple 0xff 3 7 5 with interrupt_vector := 0x0e })] :=
    Recording.ofRecords_tape hf₀
  obtain ⟨f, o, hnext, -, -, hevent, hgives⟩ := hf₀.reading.dump htape
  have hreach : Reachable f := by
    obtain ⟨u, hu⟩ := hf₀
    exact .call (.load (.new u) (by rw [hu]; rfl)) (run_next hnext)
  have hcurrent : Tape.current pageFault.count (1, .simple 0 1 7 5) [(2, .simple 0x10e 2 7 5),
      (3, { SyncPoint.simple 0xff 3 7 5 with interrupt_vector := 0x0e })] = .stay _ _ [] :=
    Tape.settle_stay rfl
  rw [hcurrent] at hgives
  cases hgives with
  | stay hafter hsame =>
    exact ⟨f, _, _, hreach, hevent, rfl, currentEvent_sane f _ _ hreach hevent rfl rfl rfl rfl⟩

end RvnSyncPoint
