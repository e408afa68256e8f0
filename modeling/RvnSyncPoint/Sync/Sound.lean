import RvnSyncPoint.Sync.Built
import RvnSyncPoint.Sync.Reposition

/-!
# Runs that return only events of the file

In which runs of public calls every event that `current_event` returns is built from records of the
file. The state of the reader is `Sound`: it stands on a record, or on the default point, and its cached
event is built from records. Each call keeps that (`Sound.run`), except for `current_event` in two
cases: on the default point at the position 1, which it takes for a first record without VMExit, and
where its look-ahead runs off the end of the file, after which the position is no longer that of the
cursor.
-/

namespace RvnSyncPoint

open LittleEndian Loop StreamableFile

/-- The look-ahead of `current_event` runs off the end of the file: every VMExit ahead makes an event
that merges with the others, up to the end. -/
def SyncFile.LooksOffEnd (R : Recording) (f : SyncFile) : Prop :=
  ¬ (f.current.isVmexit = false ∧ f.position = 1) ∧ Tape.RunsOff (fun _ => False) (R.ahead f)

/-- `current_event` has the event in the cache, or aggregates it from a point of the file and stops
looking ahead before the end. -/
def SyncFile.Settles (R : Recording) (f : SyncFile) : Prop :=
  f.current_event.is_valid = false → f.eof = false →
    ¬ (f.position = 1 ∧ f.current = {}) ∧ ¬ f.LooksOffEnd R

/-- The call is one to a position of the file, if it takes a position. -/
def Call.InFile (R : Recording) : Call → Prop
  | .advanceTo q => q ≤ R.count
  | .seekFromEnd p => p < R.count
  | _ => True

/-- If the call is one of `current_event`, or of `advance_to` where it ends with `current_event`, it
settles. -/
def Call.Settles (R : Recording) (f : SyncFile) : Call → Prop
  | .currentEvent => f.Settles R
  | .advanceTo q => ∀ f' g, f.seek q = some f' → f'.current.isVmenter = true →
      f'.backToVmexit q = some g → g.Settles R
  | _ => True

/-- What a run keeps. -/
structure Sound (R : Recording) (f : SyncFile) : Prop where
  state : (Reading R f ∧ (R.IsPoint f.position f.current ∨ f.current = {})) ∨ Ended R f
  cached : f.current_event.is_valid = true → f.current_event.BuiltUnlessLast R

section

variable {R : Recording} {f g : SyncFile} {e : SyncEvent} {x : ℕ × SyncPoint} {T : Tape}

theorem Sound.attached (h : Sound R f) : Attached R f :=
  h.state.elim (fun h => h.1.toAttached) (fun h => h.toAttached)

theorem Loaded.sound {data : Option (List UInt8)} (h : Loaded R data f) : Sound R f :=
  ⟨.inl ⟨h.reading, .inr h.fields.2.1⟩, fun hv => by rw [h.fields.2.2.1] at hv; cases hv⟩

theorem OnRecord.isPoint {nodata : Prop} {k : ℕ} (h : OnRecord R nodata k f) :
    R.IsPoint f.position f.current := by
  obtain ⟨data, hcur⟩ := h.point
  rw [h.pos]
  exact ⟨h.one_le, h.le_count, _, data, hcur⟩

theorem OnRecord.sound {nodata : Prop} {k : ℕ} (h : OnRecord R nodata k f) : Sound R f :=
  ⟨.inl ⟨h.toReading, .inl h.isPoint⟩, fun hv => by rw [h.event] at hv; cases hv⟩

/-- The points from a record on are all decoded from records. -/
theorem Recording.After.recorded (h : R.After f (x :: T)) (hx : R.IsPoint x.1 x.2) :
    Tape.Recorded R (x :: T) :=
  ⟨List.forall_mem_cons.mpr ⟨hx, fun _ hy => (h.mem_tape hy).2⟩, h.sorted⟩

/-- The points to come are all decoded from records. -/
theorem Recording.After.recorded_tail (h : R.After f (x :: T)) : Tape.Recorded R T :=
  ⟨fun _ hy => (h.mem_tape hy).2, (List.pairwise_cons.mp h.sorted).2⟩

/-- `next()` puts the reader on a record, or at the end of the file. -/
theorem Sound.next (h : Sound R f) (hnext : f.next = some g) : Sound R g := by
  rcases h.state with ⟨hread, -⟩ | hend
  · obtain ⟨k, hk, hcache, hstate⟩ := hread.next
    rw [hnext] at hk
    cases hk
    have hcached : g.current_event.is_valid = true → g.current_event.BuiltUnlessLast R := by
      intro hv
      rw [hcache] at hv
      cases hv
    rcases hstate with ⟨x, T, -, hafter, -, hpoint⟩ | ⟨-, hend⟩
    · refine ⟨.inl ⟨hafter.1, .inl ?_⟩, hcached⟩
      rw [hafter.2.1, hafter.2.2.1]
      exact hpoint
    · exact ⟨.inr hend.1, hcached⟩
  · -- At the end of the file, nothing changes.
    rw [hend.next] at hnext
    cases hnext
    exact h

/-- What `current_event` leaves where it settles on an event that is built from records. -/
theorem Settled.Gives.sound {z : Settled} {o : Outcome SyncFile SyncEvent}
    (hgives : z.Gives R f (some o)) (hkeep : SyncFile.keep o = .returned e g) (hbuilt : z.Built R)
    (hlost : ¬ z.Lost False) : Sound R g ∧ e.BuiltUnlessLast R := by
  cases hgives with
  | thrown hafter hsame => cases hkeep
  | stay hafter hsame =>
    cases hkeep
    have hk := hafter.keep e
    refine ⟨⟨.inl ⟨hk.1, .inl ?_⟩, fun _ => hbuilt.1⟩, hbuilt.1⟩
    rw [hk.2.1, hk.2.2.1]
    exact hbuilt.2
  | atEnd hend hsame =>
    cases hkeep
    exact ⟨⟨.inr (hend.keep e).1, fun _ => hbuilt⟩, hbuilt⟩
  | back hread hpos hpt hcur hev =>
    cases hkeep
    exact ⟨⟨.inl ⟨hread.keep e, .inl hpt⟩, fun _ => hbuilt⟩, hbuilt⟩
  | offEnd hatt hpos => exact (hlost trivial).elim

/-- `current_event`, where it settles: the event that it returns is built from records. -/
theorem Sound.currentEvent (h : Sound R f) (hok : f.Settles R)
    (he : f.currentEvent = some (.returned e g)) :
    Sound R g ∧ (e.is_valid = true → e.BuiltUnlessLast R) := by
  by_cases hcached : (f.current_event.is_valid || f.eof) = true
  · unfold SyncFile.currentEvent at he
    rw [if_pos hcached] at he
    cases he
    exact ⟨h, h.cached⟩
  · obtain ⟨hc, heof⟩ : f.current_event.is_valid = false ∧ f.eof = false := by simpa using hcached
    obtain ⟨hdefault, hoff⟩ := hok hc heof
    rcases h.state with ⟨hread, hcur⟩ | hend
    · have hafter := hread.after
      have hpos : f.current.isVmexit = true → 1 ≤ f.position := by
        intro hv
        rcases hcur with hpoint | hcur
        · exact hpoint.1
        · rw [hcur] at hv
          cases hv
      -- The reader stands on a record, or on the default point away from the position 1.
      have hstart : Tape.Recorded R (R.ahead f) ∨ (f.current.isVmexit = false ∧ f.position ≠ 1) := by
        rcases hcur with hpoint | hcur
        · exact .inl (hafter.recorded hpoint)
        · exact .inr ⟨by rw [hcur]; rfl, fun h1 => hdefault ⟨h1, hcur⟩⟩
      have hbuilt := Tape.current_built (n := R.count) hafter.recorded_tail hstart
      have hlost : ¬ (Tape.current R.count (f.position, f.current) (R.tape f)).Lost False := by
        intro hlost
        obtain ⟨hhead, hruns⟩ := Tape.current_lost (fun z hz => hafter.le_count hz) hafter.sorted hlost
        simp only [false_and] at hruns
        exact hoff ⟨hhead, hruns⟩
      obtain ⟨o, ho, hgives⟩ := currentEvent_spec hafter hc hpos
      rw [ho] at he
      obtain ⟨o, rfl, hkeep⟩ := Option.map_eq_some_iff.mp he
      exact (hgives.sound hkeep hbuilt hlost).imp_right fun h _ => h
    · rw [hend.eof] at heof
      cases heof

/-- `advance_to` to a position of the file. -/
theorem Sound.advanceTo (h : Sound R f) {q : ℕ} (hq : q ≤ R.count)
    (hok : ∀ f' g, f.seek q = some f' → f'.current.isVmenter = true →
      f'.backToVmexit q = some g → g.Settles R)
    (hadv : f.advanceTo q = some (.returned () g)) : Sound R g := by
  rcases Nat.eq_zero_or_pos q with rfl | h1
  · -- At zero, the cached event stays as it is.
    obtain ⟨k, hk, hread, -, hcur, hev, -⟩ := seek_zero h.attached
    rw [advanceTo_seek hk (.inl rfl)] at hadv
    cases hadv
    refine ⟨.inl ⟨hread, .inr hcur⟩, ?_⟩
    rw [hev]
    exact h.cached
  · obtain ⟨k, hk, hon, -⟩ := seek_onRecord h.attached False.elim h1 hq
    cases hv : k.current.isVmenter with
    | false =>
      rw [advanceTo_seek hk (.inr hv)] at hadv
      cases hadv
      exact hon.sound
    | true =>
      -- On a VMEnter, it goes back and gets the event.
      obtain ⟨l, j, hl, honl, -⟩ := backToVmexit_spec q k hon
      rw [advanceTo_eq (by omega) hk hv, hl, Option.bind_some] at hadv
      obtain ⟨o, ho, hforget⟩ := Option.map_eq_some_iff.mp hadv
      cases o with
      | thrown err m => cases hforget
      | returned e m =>
        cases hforget
        exact (honl.sound.currentEvent (hok k l hk hv hl) ho).1

/-- A call that returns keeps the state sound, if it settles. -/
theorem Sound.run (h : Sound R f) {c : Call} {v : Value} (hin : c.InFile R) (hok : c.Settles R f)
    (hcall : c.run f = some (.returned v g)) : Sound R g := by
  cases c with
  | next =>
    obtain ⟨k, hk, hret⟩ := Option.map_eq_some_iff.mp hcall
    cases hret
    exact h.next hk
  | currentEvent =>
    obtain ⟨o, ho, hret⟩ := Option.map_eq_some_iff.mp hcall
    cases o with
    | thrown err k => cases hret
    | returned e k =>
      cases hret
      exact (h.currentEvent hok ho).1
  | advanceTo q =>
    obtain ⟨o, ho, hret⟩ := Option.map_eq_some_iff.mp hcall
    cases o with
    | thrown err k => cases hret
    | returned u k =>
      cases hret
      exact h.advanceTo hin hok ho
  | seekFromEnd p =>
    cases hcall
    obtain ⟨hread, -, hcur, hev, -⟩ := seekFromEnd_reading h.attached hin
    refine ⟨.inl ⟨hread, .inr hcur⟩, ?_⟩
    rw [hev]
    exact h.cached
  | validate =>
    cases hcall
    rw [validate_eq]
    -- The last valid position is not part of the state's soundness.
    obtain ⟨hstate, hcached⟩ := h
    refine ⟨?_, hcached⟩
    rcases hstate with ⟨⟨⟨on, hv, hrs, hcount, hd⟩, hfile, hle⟩, hcur⟩ |
      ⟨⟨on, hv, hrs, hcount, hd⟩, heof, hcur⟩
    · exact .inl ⟨⟨⟨on, hv, hrs, hcount, hd⟩, hfile, hle⟩, hcur⟩
    · exact .inr ⟨⟨on, hv, hrs, hcount, hd⟩, heof, hcur⟩
  | isValid => cases hcall; exact h
  | eof => cases hcall; exact h
  | current => cases hcall; exact h
  | position => cases hcall; exact h
  | lastValidPosition => cases hcall; exact h
  | syncPointCount => cases hcall; exact h

/-- Runs of calls that settle keep the state sound. -/
theorem Run.sound {f₀ : SyncFile} (hrun : Run (fun g c => c.InFile R ∧ c.Settles R g) f₀ f)
    (h₀ : Sound R f₀) : Sound R f := by
  induction hrun with
  | start => exact h₀
  | step hrun hok hcall ih => exact ih.run hok.1 hok.2 hcall

/-- In every run in which `current_event` is called only where it settles, every event that it returns,
if the file does not end inside it, is built from records of the file. -/
theorem run_built (R : Recording) (data : Option (List UInt8)) (f₀ f g : SyncFile) (e : SyncEvent)
    (h₀ : Loaded R data f₀) (hrun : Run (fun g c => c.InFile R ∧ c.Settles R g) f₀ f)
    (hok : f.Settles R)
    (he : f.currentEvent = some (.returned e g)) (hv : e.is_valid = true)
    (hlast : e.is_last_event = false) : e.Built R :=
  ((hrun.sound h₀.sound).currentEvent hok he).2 hv hlast

/-- On the recording `effectAtEnd`, the first event is built from the first record. -/
theorem run_built_first : ∃ f₀ f g e, Loaded effectAtEnd none f₀ ∧
    Run (fun g c => c.InFile effectAtEnd ∧ c.Settles effectAtEnd g) f₀ f ∧
    f.currentEvent = some (.returned e g) ∧ e.is_first_event_context_unknown = true ∧
    e.Built effectAtEnd := by
  obtain ⟨f₀, hf₀⟩ : ∃ f, Loaded effectAtEnd none f := Recording.ofRecords_loaded
  have htape : effectAtEnd.tape f₀ =
      [(1, .simple 0xff 1 7 5), (2, .simple 0 2 7 5), (3, .simple 0xff 3 8 5)] :=
    Recording.ofRecords_tape hf₀
  obtain ⟨f, o, hnext, -, hahead, hevent, hgives⟩ := hf₀.reading.dump htape
  have hrun : Run (fun g c => c.InFile effectAtEnd ∧ c.Settles effectAtEnd g) f₀ f := by
    exact Run.step .start (c := .next) ⟨trivial, trivial⟩ (run_next hnext)
  obtain ⟨hpos, hcur⟩ := Prod.mk.inj (List.cons.inj hahead).1
  have hok : f.Settles effectAtEnd := by
    refine fun _ _ => ⟨fun h => ?_, fun h => h.1 ⟨by rw [hcur]; rfl, hpos⟩⟩
    rw [hcur] at h
    exact absurd h.2 (by decide)
  have hcurrent : Tape.current effectAtEnd.count (1, .simple 0xff 1 7 5)
      [(2, .simple 0 2 7 5), (3, .simple 0xff 3 8 5)] =
      .stay (Tape.headEvent (1, .simple 0xff 1 7 5)) (1, .simple 0xff 1 7 5) _ :=
    Tape.settle_stay (e := Tape.headEvent (1, .simple 0xff 1 7 5)) rfl
  rw [hcurrent] at hgives
  cases hgives with
  | stay hafter hsame =>
    exact ⟨f₀, f, _, _, hf₀, hrun, hevent, rfl, run_built _ none _ _ _ _ hf₀ hrun hok hevent rfl rfl⟩

/-- After `seek_from_end` to the second record of three, `current_event` returns an event that ends with
the default point. -/
theorem run_built_fabricated : ¬ ∀ (R : Recording) (data : Option (List UInt8))
    (f₀ f g : SyncFile) (e : SyncEvent), Loaded R data f₀ → Run (fun _ c => c.InFile R) f₀ f →
    f.currentEvent = some (.returned e g) → e.is_valid = true → e.is_last_event = false →
    e.Built R := by
  intro halways
  obtain ⟨f₀, hf₀⟩ : ∃ f, Loaded effectAtEnd none f := Recording.ofRecords_loaded
  obtain ⟨hread, hpos, hcur, hev, -⟩ := seekFromEnd_reading hf₀.reading.toAttached
    (show 1 < effectAtEnd.count by decide)
  have hrun : Run (fun _ c => c.InFile effectAtEnd) f₀ (f₀.seekFromEnd 1) :=
    Run.step .start (c := .seekFromEnd 1) (v := .unit) (show 1 < effectAtEnd.count by decide) rfl
  -- The reader is at the position 1, on the default point.
  have hafter := hread.after
  rw [hcur, show (f₀.seekFromEnd 1).position = 1 from hpos] at hafter
  obtain ⟨o, ho, hgives⟩ := currentEvent_spec hafter (by rw [hev, hf₀.fields.2.2.1])
    (fun hv => by cases hv)
  have hcurrent : ∀ T, Tape.current effectAtEnd.count (1, {}) T =
      .stay (Tape.headEvent (1, {})) (1, {}) T :=
    fun T => Tape.settle_stay (e := Tape.headEvent (1, {})) rfl
  rw [hcurrent] at hgives
  cases hgives with
  | stay hend hsame =>
    obtain ⟨i, j, hij⟩ := halways _ none f₀ _ _ _ hf₀ hrun ho rfl rfl
    -- The new context of the event is that of the default point, whose TSC is zero.
    have hne := effectAtEnd.record_tsc (hij.one_le.trans hij.le) hij.le_count
    apply hne
    calc (effectAtEnd.record j).tsc = ((effectAtEnd.record j).point {} []).context.tsc :=
          (SyncRecord.point_tsc _ {} []).symm
      _ = (Tape.headEvent (1, {})).new_context.tsc := (congrArg Context.tsc hij.new_context).symm
      _ = 0 := rfl

end

end RvnSyncPoint
