import RvnSyncPoint.Sync.Advance
import RvnSyncPoint.Sync.Dump

/-!
# The event after repositioning

What `current_event` returns after `advance_to` or `seek_from_end`, as against a freshly loaded reader
on which only that call was made. The two agree where the call drops the cached event, or there is none
to drop (`reposition_event`). Only `next()` drops it, and `advance_to` to zero and `seek_from_end` do
not call `next()`.
-/

namespace RvnSyncPoint

open LittleEndian Loop StreamableFile

/-- The call moves the reader to a position of the recording. -/
def Call.Repositions (R : Recording) : Call → Prop
  | .advanceTo q => q ≤ R.count
  | .seekFromEnd p => p < R.count
  | _ => False

/-- What is observed of `current_event`: the event and the position after it, or the exception. -/
def Outcome.observed : Outcome SyncFile SyncEvent → Except RuntimeError (SyncEvent × ℕ)
  | .returned e f => .ok (e, f.position)
  | .thrown err _ => .error err

/-- Makes the call, and then `current_event`. -/
def Call.thenEvent (c : Call) (f : SyncFile) : Option (Except RuntimeError (SyncEvent × ℕ)) := do
  match ← c.run f with
  | .thrown err _ => return .error err
  | .returned _ f => return (← f.currentEvent).observed

/-- The cached event of the reader does not outlive the call: there is none, or the call reads a
record. -/
def Call.Forgets (f : SyncFile) : Call → Prop
  | .advanceTo q => f.current_event.is_valid = false ∨ q ≠ 0
  | _ => f.current_event.is_valid = false

section

variable {R : Recording} {f g : SyncFile} {e : SyncEvent}

/-- The event that `current_event` returns is cached. -/
theorem currentEvent_cached (h : f.currentEvent = some (.returned e g)) : g.current_event = e := by
  unfold SyncFile.currentEvent at h
  split_ifs at h with hc
  · cases h
    rfl
  · simp only [Option.bind_eq_bind, Option.bind_eq_some_iff] at h
    obtain ⟨o, -, h⟩ := h
    cases o with
    | thrown err k => cases h
    | returned e' k =>
      obtain ⟨o, -, h⟩ := Option.bind_eq_some_iff.mp h
      cases o with
      | thrown err k => cases h
      | returned e' k =>
        cases h
        rfl

/-- Readers that agree get the same event, if they agree on the cached one wherever it is returned. -/
theorem Agree.currentEvent (h : Agree f g)
    (hc : f.current_event.is_valid = false → f.eof = true → f.current_event = g.current_event) :
    Option.Rel (Outcome.Rel Eq Agree) f.currentEvent g.currentEvent := by
  refine agree_lockstep.currentEvent (fun _ => rfl) h fun hcached => ?_
  rcases h.event with heq | ⟨hf, -⟩
  · exact heq
  · exact hc hf (by simpa [hf] using hcached)

/-- What is observed of two related calls of `current_event` is the same. -/
theorem observed_congr {x y : Option (Outcome SyncFile SyncEvent)}
    (h : Option.Rel (Outcome.Rel Eq Agree) x y) :
    x.map Outcome.observed = y.map Outcome.observed := by
  cases h with
  | none => rfl
  | some hxy =>
    cases hxy with
    | thrown h => rfl
    | returned he h => simp only [Option.map_some, Outcome.observed, he, h.position]

/-- A call that returns, and then `current_event`. -/
theorem Call.thenEvent_returned {c : Call} {v : Value} (h : c.run f = some (.returned v g)) :
    c.thenEvent f = g.currentEvent.map Outcome.observed := by
  unfold thenEvent
  simp only [h, Option.bind_eq_bind, Option.bind_some]
  cases g.currentEvent with
  | none => rfl
  | some o => rfl

/-- `advance_to`, as a call. -/
theorem run_advanceTo {q : ℕ} {u : Unit} (h : f.advanceTo q = some (.returned u g)) :
    (Call.advanceTo q).run f = some (.returned .unit g) := by
  rw [show (Call.advanceTo q).run f = (f.advanceTo q).map (Outcome.map fun _ => .unit) from rfl, h]
  rfl

/-- Blocks read from two data files that deliver the same. -/
theorem SameData.dataAt {d d' : StreamableFile} (h : SameData d d') (offset : UInt32) :
    (dataAt offset d).1 = (dataAt offset d').1 ∧
      SameData (RvnSyncPoint.dataAt offset d).2 (RvnSyncPoint.dataAt offset d').2 := by
  have hread := h.readData offset
  unfold RvnSyncPoint.dataAt
  generalize RvnSyncPoint.readData offset d = x, RvnSyncPoint.readData offset d' = y at hread
  cases hread with
  | none => exact ⟨rfl, h⟩
  | some hxy => exact hxy

/-- Readers of the recording at the same place agree, if they have no cached event. -/
theorem Reading.agree (hf : Reading R f) (hg : Reading R g) (hpos : f.position = g.position)
    (hcur : f.current = g.current) (hdata : SameData f.data_file g.data_file)
    (hev : f.current_event.is_valid = false) (hev' : g.current_event.is_valid = false) :
    Agree f g := by
  refine ⟨?_, hdata, hcur, .inr ⟨hev, hev'⟩, hpos, ?_, ?_, ?_, ?_⟩
  · rw [hf.file, hg.file, hpos]
  · rw [hf.record_size, hg.record_size]
  · rw [hf.version, hg.version]
  · rw [hf.sync_point_count, hg.sync_point_count]
  · intro hlt
    rw [hf.version] at hlt
    exact absurd hlt (by decide)

/-- A seek to a record makes readers agree. -/
theorem seek_agree (hf : Attached R f) (hg : Attached R g) (hdata : SameData f.data_file g.data_file)
    {q : ℕ} (h1 : 1 ≤ q) (hq : q ≤ R.count) :
    ∃ f' g', f.seek q = some f' ∧ g.seek q = some g' ∧ OnRecord R False q f' ∧
      OnRecord R False q g' ∧ Agree f' g' := by
  obtain ⟨f', hf', hread, hpos, hcur, hd, hev, -⟩ := seek_record hf h1 hq
  obtain ⟨g', hg', hread', hpos', hcur', hd', hev', -⟩ := seek_record hg h1 hq
  obtain ⟨hblocks, hsame⟩ := hdata.dataAt (R.record q).data_offset
  have hdrop : f'.current_event.is_valid = false := hev ▸ f.current_event.dropped_is_valid
  have hdrop' : g'.current_event.is_valid = false := hev' ▸ g.current_event.dropped_is_valid
  refine ⟨f', g', hf', hg', ⟨hread, hpos, h1, ⟨_, hcur⟩, hdrop, False.elim⟩,
    ⟨hread', hpos', h1, ⟨_, hcur'⟩, hdrop', False.elim⟩, ?_⟩
  refine hread.agree hread' (hpos.trans hpos'.symm) ?_ ?_ hdrop hdrop'
  · rw [hcur, hcur', hblocks]
  · rw [hd, hd']
    exact hsame

/-- Where a call leaves readers that agree in good states, they get the same event. -/
theorem Agree.thenEvent {c : Call} {v v' : Value} {f' g' : SyncFile} (h : Agree f' g')
    (hread : Reading R f') (hf : c.run f = some (.returned v f'))
    (hg : c.run g = some (.returned v' g')) : c.thenEvent f = c.thenEvent g := by
  rw [Call.thenEvent_returned hf, Call.thenEvent_returned hg]
  refine observed_congr (h.currentEvent fun _ heof => ?_)
  rw [hread.eof] at heof
  cases heof

/-- Both readers get the same event after `advance_to` to a record. -/
theorem advanceTo_thenEvent (hf : Attached R f) (hg : Attached R g)
    (hdata : SameData f.data_file g.data_file) {q : ℕ} (h1 : 1 ≤ q) (hq : q ≤ R.count) :
    (Call.advanceTo q).thenEvent f = (Call.advanceTo q).thenEvent g := by
  obtain ⟨f', g', hf', hg', hon, hon', hagree⟩ := seek_agree hf hg hdata h1 hq
  cases hv : (R.record q).isVmenter with
  | false =>
    have hadv := advanceTo_seek hf' (.inr (hon.isVmenter.trans hv))
    have hadv' := advanceTo_seek hg' (.inr (hon'.isVmenter.trans hv))
    exact hagree.thenEvent hon.toReading (run_advanceTo hadv) (run_advanceTo hadv')
  | true =>
    -- The loop goes back to the same record in both readers.
    have hadv := advanceTo_eq (by omega) hf' (hon.isVmenter.trans hv)
    have hadv' := advanceTo_eq (by omega) hg' (hon'.isVmenter.trans hv)
    obtain ⟨k, q', hk, honk, -⟩ := backToVmexit_spec q f' hon
    obtain ⟨k', -, hk', -, -⟩ := backToVmexit_spec q g' hon'
    have hback := agree_lockstep.backToVmexit q hagree
    rw [hk, hk'] at hback
    rw [hk, Option.bind_some] at hadv
    rw [hk', Option.bind_some] at hadv'
    cases hback with
    | some hagreek =>
      have hevent := hagreek.currentEvent fun _ heof => by
        rw [honk.eof] at heof
        cases heof
      generalize hx : k.currentEvent = x, hy : k'.currentEvent = y at hevent hadv hadv'
      cases hevent with
      | none => simp [Call.thenEvent, Call.run, hadv, hadv']
      | some hxy =>
        cases hxy with
        | thrown h =>
          simp [Call.thenEvent, Call.run, hadv, hadv', Outcome.map, SyncFile.forget]
        | returned he h =>
          -- Both have the same event in the cache now, which is what the next call looks at.
          subst he
          have hcached := (currentEvent_cached hx).trans (currentEvent_cached hy).symm
          rw [Call.thenEvent_returned (run_advanceTo hadv),
            Call.thenEvent_returned (run_advanceTo hadv')]
          exact observed_congr (h.currentEvent fun _ _ => hcached)

/-- After a call that moves a reader of a recording, in any run, `current_event` gives the same event and
position as on a freshly loaded reader on which only that call was made: unless the call keeps a cached
event, or a data file was read to its end before. -/
theorem reposition_event (R : Recording) (data : Option (List UInt8)) (f₀ f₁ f : SyncFile) (c : Call)
    (h₀ : Loaded R data f₀) (h₁ : Loaded R data f₁) (hrun : Run (fun _ _ => True) f₀ f)
    (hc : c.Repositions R) (hforgets : c.Forgets f) (heof : f.data_file.eof = f₁.data_file.eof) :
    c.thenEvent f = c.thenEvent f₁ := by
  obtain ⟨hatt, hhealthy⟩ := h₀.run hrun
  have hatt₁ := h₁.reading.toAttached
  have hdata := SameData.of_healthy hhealthy h₁.healthy heof
  have hev₁ : f₁.current_event.is_valid = false := by rw [h₁.fields.2.2.1]
  cases c with
  | advanceTo q =>
    rcases Nat.eq_zero_or_pos q with rfl | hpos
    · -- At zero, no record is read, and the cached event stays.
      have hev : f.current_event.is_valid = false := hforgets.resolve_right (by simp)
      obtain ⟨g, hg, hread, hpos, hcur, hgev, -, hgdata⟩ := seek_zero hatt
      obtain ⟨g₁, hg₁, hread₁, hpos₁, hcur₁, hgev₁, -, hgdata₁⟩ := seek_zero hatt₁
      have hagree : Agree g g₁ := by
        refine hread.agree hread₁ (hpos.trans hpos₁.symm) (hcur.trans hcur₁.symm) ?_ ?_ ?_
        · rw [hgdata, hgdata₁]
          exact hdata
        · rw [hgev]
          exact hev
        · rw [hgev₁]
          exact hev₁
      exact hagree.thenEvent hread (run_advanceTo (advanceTo_seek hg (.inl rfl)))
        (run_advanceTo (advanceTo_seek hg₁ (.inl rfl)))
    · exact advanceTo_thenEvent hatt hatt₁ hdata hpos hc
  | seekFromEnd p =>
    -- Both readers are put before the same record, with no cached event.
    have hev : f.current_event.is_valid = false := hforgets
    obtain ⟨hread, hpos, hcur, hgev, -, hgdata⟩ := seekFromEnd_reading hatt hc
    obtain ⟨hread₁, hpos₁, hcur₁, hgev₁, -, hgdata₁⟩ := seekFromEnd_reading hatt₁ hc
    have hagree : Agree (f.seekFromEnd p) (f₁.seekFromEnd p) := by
      refine hread.agree hread₁ (hpos.trans hpos₁.symm) (hcur.trans hcur₁.symm) ?_ ?_ ?_
      · rw [hgdata, hgdata₁]
        exact hdata
      · rw [hgev]
        exact hev
      · rw [hgev₁]
        exact hev₁
    exact hagree.thenEvent hread rfl rfl
  | isValid => exact hc.elim
  | eof => exact hc.elim
  | next => exact hc.elim
  | current => exact hc.elim
  | currentEvent => exact hc.elim
  | position => exact hc.elim
  | lastValidPosition => exact hc.elim
  | validate => exact hc.elim
  | syncPointCount => exact hc.elim

/-- A run that gets an event: `next()` and `current_event`. -/
theorem Run.event {ok : SyncFile → Call → Prop} {f₀ k : SyncFile} (hrun : Run ok f₀ f)
    (hok : ∀ g c, ok g c) (hnext : f.next = some g) (hevent : g.currentEvent = some (.returned e k)) :
    Run ok f₀ k :=
  (hrun.step (hok _ _) (run_next hnext)).step (hok _ _) (run_currentEvent hevent)

/-- A reader of the recording `effectAtEnd` after a run that got its first event. -/
theorem effectAtEnd_run : ∃ f₀ f, Loaded effectAtEnd none f₀ ∧ Run (fun _ _ => True) f₀ f ∧
    f.current_event = Tape.headEvent (1, .simple 0xff 1 7 5) ∧ Attached effectAtEnd f ∧
    f.data_file.eof = true := by
  obtain ⟨f₀, hf₀⟩ : ∃ f, Loaded effectAtEnd none f := Recording.ofRecords_loaded
  have htape : effectAtEnd.tape f₀ =
      [(1, .simple 0xff 1 7 5), (2, .simple 0 2 7 5), (3, .simple 0xff 3 8 5)] :=
    Recording.ofRecords_tape hf₀
  obtain ⟨g, o, hnext, -, -, hevent, hgives⟩ := hf₀.reading.dump htape
  have hcurrent : Tape.current effectAtEnd.count (1, .simple 0xff 1 7 5)
      [(2, .simple 0 2 7 5), (3, .simple 0xff 3 8 5)] =
      .stay (Tape.headEvent (1, .simple 0xff 1 7 5)) (1, .simple 0xff 1 7 5) _ :=
    Tape.settle_stay (e := Tape.headEvent (1, .simple 0xff 1 7 5)) rfl
  rw [hcurrent] at hgives
  cases hgives with
  | stay hafter hsame =>
    have hrun : Run (fun _ _ => True) f₀ _ := Run.event .start (fun _ _ => trivial) hnext hevent
    have hatt := hrun.attached noData_keptByData hf₀.attachedAlone
    exact ⟨f₀, _, hf₀, hrun, rfl, hatt.1, hatt.2.1⟩

/-- After it, `advance_to` to the last record gives the same event as on a fresh reader. -/
theorem reposition_event_last : ∃ f₀ f₁ f, Loaded effectAtEnd none f₀ ∧ Loaded effectAtEnd none f₁ ∧
    Run (fun _ _ => True) f₀ f ∧ f.current_event.is_valid = true ∧
    (Call.advanceTo 3).thenEvent f = (Call.advanceTo 3).thenEvent f₁ := by
  obtain ⟨f₀, f, hf₀, hrun, hev, -, heof⟩ := effectAtEnd_run
  refine ⟨f₀, f₀, f, hf₀, hf₀, hrun, by rw [hev]; rfl, ?_⟩
  exact reposition_event effectAtEnd none f₀ f₀ f (.advanceTo 3) hf₀ hf₀ hrun
    (show 3 ≤ effectAtEnd.count by decide) (.inr (by decide)) (heof.trans hf₀.no_data.symm)

/-- But `advance_to` to zero leaves the first event in the cache, where a fresh reader goes on to the
second one. -/
theorem reposition_event_stale : ¬ ∀ (R : Recording) (data : Option (List UInt8))
    (f₀ f₁ f : SyncFile) (c : Call), Loaded R data f₀ → Loaded R data f₁ →
    Run (fun _ _ => True) f₀ f → c.Repositions R → c.thenEvent f = c.thenEvent f₁ := by
  intro halways
  obtain ⟨f₀, f, hf₀, hrun, hev, hatt, -⟩ := effectAtEnd_run
  have hsame := halways _ _ f₀ f₀ f (.advanceTo 0) hf₀ hf₀ hrun (Nat.zero_le _)
  -- The cached event is returned, at the position zero.
  obtain ⟨g, hg, -, hpos, -, hgev, -⟩ := seek_zero hatt
  rw [Call.thenEvent_returned (run_advanceTo (advanceTo_seek hg (.inl rfl)))] at hsame
  have hcached : g.currentEvent = some (.returned g.current_event g) := by
    unfold SyncFile.currentEvent
    rw [if_pos (by rw [hgev, hev]; rfl)]
  -- The fresh reader finds the event of the last two records.
  obtain ⟨k, hk, hread, hkpos, hkcur, hkev, -, hkdata⟩ := seek_zero hf₀.reading.toAttached
  rw [Call.thenEvent_returned (run_advanceTo (advanceTo_seek hk (.inl rfl)))] at hsame
  have htape : effectAtEnd.tape k =
      [(1, .simple 0xff 1 7 5), (2, .simple 0 2 7 5), (3, .simple 0xff 3 8 5)] := by
    rw [Recording.tape, hkpos, hkcur, tapeOf_eof (hkdata ▸ hf₀.no_data)]
    exact congrArg (tapeOf 0 {} noData) Recording.ofRecords_recordsFrom
  have hafter : effectAtEnd.After k ((0, {}) ::
      [(1, .simple 0xff 1 7 5), (2, .simple 0 2 7 5), (3, .simple 0xff 3 8 5)]) :=
    ⟨hread, hkpos, hkcur, htape⟩
  obtain ⟨o, ho, hgives⟩ := currentEvent_spec hafter (by rw [hkev, hf₀.fields.2.2.1])
    (fun hv => by cases hv)
  have hcurrent : Tape.current effectAtEnd.count (0, {})
      [(1, .simple 0xff 1 7 5), (2, .simple 0 2 7 5), (3, .simple 0xff 3 8 5)] =
      .stay (Tape.pair (2, .simple 0 2 7 5) (3, .simple 0xff 3 8 5)) (3, .simple 0xff 3 8 5) [] :=
    Tape.settle_stay (e := Tape.pair (2, .simple 0 2 7 5) (3, .simple 0xff 3 8 5)) rfl
  rw [hcurrent] at hgives
  rw [hcached] at hsame
  cases hgives with
  | stay hend hsame' =>
    rw [ho] at hsame
    simp only [Option.map_some, SyncFile.keep, Outcome.observed, Option.some.injEq,
      Except.ok.injEq, Prod.mk.injEq] at hsame
    have hlast := hend.2.1
    rw [hpos, hlast] at hsame
    exact absurd hsame.2 (by decide)

end

end RvnSyncPoint
