import RvnSyncPoint.Sync.Encode
import RvnSyncPoint.Sync.LookAhead

/-!
# Iterating over a recording

The loop of `bin/dump_sync_events`, `while (file.next().valid()) file.current_event()`, on a freshly
loaded reader: `DumpRun` are its runs. After any number of calls of `next()`, `current_event` ends
unless all that it finds is blank (`nexts_currentEvent`); and as long as its look-ahead does not run off
the end of the file, the loop only moves forward (`dumpRun_forward`).
-/

namespace RvnSyncPoint

open LittleEndian Loop StreamableFile

/-- The points that a reader of the recording finds from its current one on. -/
def Recording.ahead (R : Recording) (f : SyncFile) : Tape := (f.position, f.current) :: R.tape f

/-- `next()` called `k` times. -/
def nexts : ℕ → SyncFile → Option SyncFile
  | 0, f => some f
  | k + 1, f => do nexts k (← f.next)

/-- A reader in a good state that stands on a record, or on the default point. -/
structure Standing (R : Recording) (f : SyncFile) : Prop extends Reading R f where
  vmexit_pos : f.current.isVmexit = true → 1 ≤ f.position

section

variable {R : Recording} {f g : SyncFile} {e : SyncEvent} {x y : ℕ × SyncPoint} {T : Tape}

theorem Loaded.standing {data : Option (List UInt8)} (h : Loaded R data f) : Standing R f :=
  ⟨h.reading, fun hv => by rw [h.fields.2.1] at hv; cases hv⟩

/-- A reader that has just read a point of the recording. -/
theorem Recording.After.standing (h : R.After g (x :: T)) (hx : 1 ≤ x.1) : Standing R g :=
  ⟨h.1, fun _ => h.2.1 ▸ hx⟩

/-- `next()` on a reader in a good state: it stands on a later record, or is at the end of the file. -/
theorem Reading.next (h : Reading R f) : ∃ g, f.next = some g ∧ g.current_event.is_valid = false ∧
    ((∃ x T, R.tape f = x :: T ∧ R.After g (x :: T) ∧ f.position < x.1 ∧ R.IsPoint x.1 x.2) ∨
      R.tape f = [] ∧ R.After g []) := by
  obtain ⟨g, hg, hafter, hev, -⟩ := next_reading h
  refine ⟨g, hg, hev ▸ f.current_event.dropped_is_valid, ?_⟩
  cases htape : R.tape f with
  | nil => exact .inr ⟨rfl, htape ▸ hafter⟩
  | cons x T =>
    obtain ⟨hlt, hpoint⟩ := Recording.mem_tape (R := R) (f := f) (x := x) (by simp [htape])
    exact .inl ⟨x, T, rfl, htape ▸ hafter, hlt, hpoint⟩

/-- After any number of calls of `next()`, the reader stands on a record or is at the end of the
file, and has no cached event. -/
theorem nexts_spec (k : ℕ) : ∀ f, f.current_event.is_valid = false → Standing R f ∨ Ended R f →
    ∃ g, nexts k f = some g ∧ g.current_event.is_valid = false ∧ (Standing R g ∨ Ended R g) := by
  induction k with
  | zero => exact fun f hc h => ⟨f, rfl, hc, h⟩
  | succ k ih =>
    intro f hc h
    rcases h with h | h
    · obtain ⟨g, hg, hcg, hpoint⟩ := h.toReading.next
      have hstate : Standing R g ∨ Ended R g := by
        rcases hpoint with ⟨x, T, -, hafter, -, hpoint⟩ | ⟨-, hend⟩
        · exact .inl (hafter.standing hpoint.1)
        · exact .inr hend.1
      obtain ⟨k, hk, hrest⟩ := ih g hcg hstate
      exact ⟨k, by simp [nexts, hg, hk], hrest⟩
    · obtain ⟨k, hk, hrest⟩ := ih f hc (.inr h)
      exact ⟨k, by simp [nexts, h.next, hk], hrest⟩

/-! ## Termination of `current_event` -/

/-- The reader is where `current_event` does not end: all that it finds is blank. -/
def SyncFile.Stuck (R : Recording) (f : SyncFile) : Prop :=
  f.eof = false ∧ R.count ≠ 1 ∧ ¬ (f.current.isVmexit = false ∧ f.position = 1) ∧
    Tape.Blank (R.ahead f)

theorem Settled.Gives.none_iff {z : Settled} {o : Option (Outcome SyncFile SyncEvent)}
    (h : z.Gives R f o) : o = none ↔ z = .hang := by
  cases h <;> simp

/-- `current_event` does not end exactly from the readers that are stuck. -/
theorem Standing.currentEvent_none (h : Standing R f) (hc : f.current_event.is_valid = false) :
    f.currentEvent = none ↔ f.Stuck R := by
  obtain ⟨o, ho, hgives⟩ := currentEvent_spec h.after hc h.vmexit_pos
  rw [ho, Option.map_eq_none_iff, hgives.none_iff,
    Tape.current_hang fun z hz hv => h.after.vmexit_pos h.vmexit_pos hz hv]
  unfold SyncFile.Stuck Recording.ahead
  simp [h.eof]

theorem Ended.currentEvent (h : Ended R f) :
    f.currentEvent = some (.returned f.current_event f) := by
  simp [SyncFile.currentEvent, h.eof]

/-- After any number of calls of `next()` on a freshly loaded reader, `current_event` returns or throws
unless the reader is stuck. -/
theorem nexts_currentEvent (R : Recording) (data : Option (List UInt8)) (f₀ : SyncFile)
    (h : Loaded R data f₀) (k : ℕ) :
    ∃ f, nexts k f₀ = some f ∧ (f.currentEvent ≠ none ↔ ¬ f.Stuck R) := by
  have hc : f₀.current_event.is_valid = false := by rw [h.fields.2.2.1]
  obtain ⟨f, hf, hcf, hstate⟩ := nexts_spec k f₀ hc (.inl h.standing)
  refine ⟨f, hf, ?_⟩
  rcases hstate with hf | hf
  · rw [Ne, hf.currentEvent_none hcf]
  · have hnot : ¬ f.Stuck R := fun hs => by simp [hf.eof, SyncFile.Stuck] at hs
    simp [hf.currentEvent, hnot]

/-- A recording of two VMEnters, without a VMExit. -/
def onlyVmenters : Recording :=
  .ofRecords [.simple 0xff 1 7 5, .simple 0xff 2 8 5] (by decide) (by decide)

/-- On it, `current_event` ends on the first point. -/
theorem nexts_currentEvent_ends : ∃ f₀ f, Loaded onlyVmenters none f₀ ∧ nexts 1 f₀ = some f ∧
    f.currentEvent ≠ none := by
  obtain ⟨f, hf⟩ : ∃ f, Loaded onlyVmenters none f := Recording.ofRecords_loaded
  have htape : onlyVmenters.tape f = [(1, .simple 0xff 1 7 5), (2, .simple 0xff 2 8 5)] :=
    Recording.ofRecords_tape hf
  obtain ⟨k, hk, hends⟩ := nexts_currentEvent onlyVmenters none f hf 1
  refine ⟨f, k, hf, hk, hends.mpr fun hstuck => hstuck.2.2.1 ?_⟩
  obtain ⟨g, hg, hafter, -⟩ := next_reading hf.reading
  rw [htape] at hafter
  have hgk : g = k := by simpa [nexts, hg] using hk
  rw [← hgk]
  exact ⟨by rw [hafter.2.2.1]; rfl, hafter.2.1⟩

/-- On it, `current_event` does not end on the second point. -/
theorem nexts_currentEvent_hangs : ¬ ∀ (R : Recording) (data : Option (List UInt8)) (f₀ f : SyncFile)
    (k : ℕ), Loaded R data f₀ → nexts k f₀ = some f → f.currentEvent ≠ none := by
  intro halways
  obtain ⟨f, hf⟩ : ∃ f, Loaded onlyVmenters none f := Recording.ofRecords_loaded
  have htape : onlyVmenters.tape f = [(1, .simple 0xff 1 7 5), (2, .simple 0xff 2 8 5)] :=
    Recording.ofRecords_tape hf
  obtain ⟨g, hg, hafter, -⟩ := next_reading hf.reading
  rw [htape] at hafter
  obtain ⟨k, hk, hafter', hev, -⟩ := next_reading hafter.1
  rw [hafter.2.2.2] at hafter'
  refine halways _ _ f k 2 hf (by simp [nexts, hg, hk]) ?_
  have hstand : Standing onlyVmenters k := hafter'.standing (by decide)
  refine (hstand.currentEvent_none (hev ▸ g.current_event.dropped_is_valid)).mpr
    ⟨hafter'.1.eof, by decide, ?_, ?_⟩
  · rw [hafter'.2.1]
    exact fun h => absurd h.2 (by decide)
  · rw [Recording.ahead, hafter'.2.1, hafter'.2.2.1, hafter'.2.2.2]
    exact ⟨fun hv => absurd hv (by decide), trivial⟩

/-! ## Runs of the loop -/

/-- A run of the loop of `dump_sync_events` from `f`, with the events that it got, up to the reader `g`
in which it is about to call `next()` again. Every call of `current_event` is made in a reader with
the property `ok`. -/
inductive DumpRun (ok : SyncFile → Prop) (f : SyncFile) : List SyncEvent → SyncFile → Prop
  | start : DumpRun ok f [] f
  | step {es : List SyncEvent} {g g' g'' : SyncFile} {e : SyncEvent} (hrun : DumpRun ok f es g)
    (hnext : g.next = some g') (hvalid : g'.current.valid = true) (hok : ok g')
    (hevent : g'.currentEvent = some (.returned e g'')) : DumpRun ok f (es ++ [e]) g''

/-- The look-ahead of `current_event` runs off the end of the file: every VMExit ahead makes an event
that merges with the others, up to the end, where the file may also end with a VMExit of zeros. -/
def SyncFile.LooksPastEnd (R : Recording) (f : SyncFile) : Prop :=
  ¬ (f.current.isVmexit = false ∧ f.position = 1) ∧
    Tape.RunsOff (Tape.LastZeroed R.count) (R.ahead f)

/-- What a run of the loop keeps: the events that it got are valid, their positions increase up to the
reader's, and there are no more of them than the reader's position says. -/
structure Forward (R : Recording) (es : List SyncEvent) (g : SyncFile) : Prop where
  state : Reading R g ∨ Ended R g
  position_le : g.position ≤ R.count
  is_valid : ∀ e ∈ es, e.is_valid = true
  increasing : es.Pairwise fun e e' => e.position < e'.position
  bounded : ∀ e ∈ es, e.position ≤ g.position
  length_le : es.length ≤ g.position

theorem Reading.keep (e : SyncEvent) (h : Reading R f) :
    Reading R { f with current_event := e } := (h.after.keep e).1

theorem Recording.After.ahead (h : R.After f (x :: T)) : R.ahead f = x :: T := by
  rw [Recording.ahead, h.2.1, h.2.2.1, h.2.2.2]

/-- The points from the current one on are those of records of the file. -/
theorem Recording.After.le_count (h : R.After f (x :: T)) (hy : y ∈ x :: T) : y.1 ≤ R.count := by
  rcases List.mem_cons.mp hy with rfl | hy
  · have hle := h.1.position_le
    rwa [h.2.1] at hle
  · exact (h.mem_tape hy).2.2.1

/-- What `current_event` leaves, where it was called on the record at `x` and did not get lost. -/
theorem currentEvent_forward (h : R.After f (x :: T)) (hc : f.current_event.is_valid = false)
    (hx : 1 ≤ x.1) (hok : ¬ f.LooksPastEnd R) (he : f.currentEvent = some (.returned e g)) :
    e.is_valid = true ∧ x.1 ≤ e.position ∧ e.position ≤ g.position ∧ g.position ≤ R.count ∧
      (Reading R g ∨ Ended R g) := by
  obtain ⟨o, ho, hgives⟩ := currentEvent_spec h hc fun _ => hx
  have hn : ∀ z ∈ x :: T, z.1 ≤ R.count := fun z hz => h.le_count hz
  have hbetween := Tape.current_between hx hn h.sorted
  have hlost : ¬ (Tape.current R.count x T).Lost True := by
    intro hlost
    have hruns := Tape.current_lost hn h.sorted hlost
    simp only [true_and] at hruns
    rw [← h.ahead, ← h.2.1, ← h.2.2.1] at hruns
    exact hok hruns
  -- Only where it goes back is the reader not left on the event's last point, or at the end.
  rw [ho] at he
  generalize Tape.current R.count x T = z at hgives hbetween hlost
  cases hgives with
  | hang => cases he
  | thrown hafter hsame => cases he
  | stay hafter hsame =>
    cases he
    obtain ⟨hv, hp, hy⟩ := hbetween
    have hk := hafter.keep e
    rw [← hk.2.1] at hy
    exact ⟨hv, hp, hy, hk.1.position_le, .inl hk.1⟩
  | atEnd hend hsame =>
    cases he
    obtain ⟨hv, hp, hle⟩ := hbetween
    have hk := hend.keep e
    rw [← hk.2] at hle
    exact ⟨hv, hp, hle, hk.2.le, .inr hk.1⟩
  | back hread hpos hpoint hcur hev =>
    rename_i k e' q
    cases he
    obtain ⟨hv, hp, -⟩ := hbetween
    have hk := hread.keep e
    refine ⟨hv, hp, ?_, hk.position_le, .inl hk⟩
    simp only [Settled.Lost, true_and] at hlost
    show e.position ≤ k.position
    omega
  | offEnd hatt hpos => exact (hlost trivial).elim

/-- What one pass of the loop keeps. -/
theorem Forward.step {es : List SyncEvent} {g' g'' : SyncFile} (h : Forward R es g)
    (hnext : g.next = some g') (hvalid : g'.current.valid = true) (hok : ¬ g'.LooksPastEnd R)
    (hevent : g'.currentEvent = some (.returned e g'')) : Forward R (es ++ [e]) g'' := by
  rcases h.state with hg | hg
  · obtain ⟨k, hk, hck, hpoint⟩ := hg.next
    rw [hnext] at hk
    cases hk
    rcases hpoint with ⟨x, T, -, hafter, hlt, hpoint⟩ | ⟨-, hend⟩
    · -- The event begins at a later record than those before it end at.
      obtain ⟨hv, hp, hle, hcount, hstate⟩ := currentEvent_forward hafter hck hpoint.1 hok hevent
      have hlen := h.length_le
      refine ⟨hstate, hcount, ?_, ?_, ?_, ?_⟩
      · intro e' he'
        rcases List.mem_append.mp he' with he' | he'
        · exact h.is_valid e' he'
        · rw [List.mem_singleton.mp he']
          exact hv
      · refine List.pairwise_append.mpr ⟨h.increasing, List.pairwise_singleton _ _, ?_⟩
        intro e₁ he₁ e₂ he₂
        have hb := h.bounded e₁ he₁
        rw [List.mem_singleton.mp he₂]
        omega
      · intro e' he'
        rcases List.mem_append.mp he' with he' | he'
        · have hb := h.bounded e' he'
          omega
        · rw [List.mem_singleton.mp he']
          exact hle
      · rw [List.length_append, List.length_singleton]
        omega
    · rw [hend.1.not_valid] at hvalid
      cases hvalid
  · -- At the end of the file there is no valid point any more.
    rw [hg.next] at hnext
    cases hnext
    rw [hg.not_valid] at hvalid
    cases hvalid

/-- What a run of the loop keeps, if the look-ahead never runs off the end of the file. -/
theorem DumpRun.forward {es : List SyncEvent} (h : DumpRun (fun g => ¬ g.LooksPastEnd R) f es g)
    (hf : Forward R [] f) : Forward R es g := by
  induction h with
  | start => exact hf
  | step hrun hnext hvalid hok hevent ih => exact ih.step hnext hvalid hok hevent

theorem Loaded.forward {data : Option (List UInt8)} (h : Loaded R data f) : Forward R [] f :=
  ⟨.inl h.reading, h.reading.position_le, by simp, by simp, by simp, Nat.zero_le _⟩

/-- The loop of `dump_sync_events` only moves forward, in every run in which the look-ahead of
`current_event` never runs off the end of the file: the positions of the events increase, the reader's
position does not exceed the number of points, also after the next call of `next()`, and there are no
more events than points. -/
theorem dumpRun_forward (R : Recording) (data : Option (List UInt8)) (f₀ : SyncFile)
    (h₀ : Loaded R data f₀) (es : List SyncEvent) (g : SyncFile)
    (hrun : DumpRun (fun f => ¬ f.LooksPastEnd R) f₀ es g) :
    (∀ e ∈ es, e.is_valid = true) ∧ (es.Pairwise fun e e' => e.position < e'.position) ∧
      es.length ≤ g.sync_point_count ∧ g.position ≤ g.sync_point_count ∧
      ∀ g', g.next = some g' → g'.position ≤ g'.sync_point_count := by
  have h := hrun.forward h₀.forward
  have hatt : Attached R g := h.state.elim (·.toAttached) (·.toAttached)
  have hpos := h.position_le
  refine ⟨h.is_valid, h.increasing, ?_, ?_, ?_⟩
  · rw [hatt.sync_point_count]
    exact h.length_le.trans hpos
  · rw [hatt.sync_point_count]
    exact hpos
  · intro g' hnext
    rcases h.state with hg | hg
    · obtain ⟨k, hk, -, hpoint⟩ := hg.next
      rw [hnext] at hk
      cases hk
      rcases hpoint with ⟨x, T, -, hafter, -⟩ | ⟨-, hend⟩
      · rw [hafter.attached.sync_point_count]
        exact hafter.1.position_le
      · rw [hend.attached.sync_point_count]
        exact hend.2.le
    · rw [hg.next] at hnext
      cases hnext
      rw [hatt.sync_point_count]
      exact hpos

/-- One pass of the loop, in terms of the tape. -/
theorem Reading.dump (h : Reading R f) (htape : R.tape f = x :: T) :
    ∃ g o, f.next = some g ∧ g.current.valid = true ∧ R.ahead g = x :: T ∧
      g.currentEvent = o.map SyncFile.keep ∧ (Tape.current R.count x T).Gives R g o := by
  obtain ⟨g, hg, hcg, hpoint⟩ := h.next
  rw [htape] at hpoint
  rcases hpoint with ⟨y, U, hcons, hafter, -, hpoint⟩ | ⟨hnil, -⟩
  · cases hcons
    obtain ⟨o, ho, hgives⟩ := currentEvent_spec hafter hcg fun _ => hpoint.1
    refine ⟨g, o, hg, ?_, hafter.ahead, ho, hgives⟩
    rw [hafter.2.2.1]
    exact hpoint.valid
  · cases hnil

/-- A pass of the loop after which the reader stays on the last point of the event. -/
theorem DumpRun.stay {ok : SyncFile → Prop} {es : List SyncEvent} {U : Tape}
    (hrun : DumpRun ok f es g) (hg : Reading R g) (htape : R.tape g = x :: T)
    (hok : ∀ g', R.ahead g' = x :: T → ok g') (hcurrent : Tape.current R.count x T = .stay e y U) :
    ∃ k, DumpRun ok f (es ++ [e]) k ∧ R.After k (y :: U) := by
  obtain ⟨g', o, hnext, hvalid, hahead, hevent, hgives⟩ := hg.dump htape
  rw [hcurrent] at hgives
  cases hgives with
  | stay hafter hsame => exact ⟨_, hrun.step hnext hvalid (hok g' hahead) hevent, hafter.keep e⟩

end

/-! ## Two recordings -/

/-- The event of a VMEnter that is the first record. -/
def Tape.headEvent (y : ℕ × SyncPoint) : SyncEvent :=
  ((SyncEvent.startUnknown y.1).addData y.2).finished y.2

/-- A recording that begins with its first VMEnter, and ends with an event that changes RAX. -/
def effectAtEnd : Recording :=
  .ofRecords [.simple 0xff 1 7 5, .simple 0 2 7 5, .simple 0xff 3 8 5] (by decide) (by decide)

/-- On it, the loop gets two events. -/
theorem dumpRun_forward_effect : ∃ f₀ es g, Loaded effectAtEnd none f₀ ∧
    DumpRun (fun f => ¬ f.LooksPastEnd effectAtEnd) f₀ es g ∧ es.length = 2 ∧
    es.Pairwise fun e e' => e.position < e'.position := by
  obtain ⟨f, hf⟩ : ∃ f, Loaded effectAtEnd none f := Recording.ofRecords_loaded
  have htape : effectAtEnd.tape f =
      [(1, .simple 0xff 1 7 5), (2, .simple 0 2 7 5), (3, .simple 0xff 3 8 5)] :=
    Recording.ofRecords_tape hf
  have hhead : ∀ g', effectAtEnd.ahead g' =
      [(1, .simple 0xff 1 7 5), (2, .simple 0 2 7 5), (3, .simple 0xff 3 8 5)] →
      ¬ g'.LooksPastEnd effectAtEnd := by
    intro g' hahead hpast
    obtain ⟨hpos, hcur⟩ := Prod.mk.inj (List.cons.inj hahead).1
    exact hpast.1 ⟨by rw [hcur]; rfl, hpos⟩
  have hpair : ∀ g', effectAtEnd.ahead g' = [(2, .simple 0 2 7 5), (3, .simple 0xff 3 8 5)] →
      ¬ g'.LooksPastEnd effectAtEnd := by
    intro g' hahead hpast
    have hruns := hpast.2.2
    rw [hahead] at hruns
    obtain ⟨-, ⟨hnil, -⟩ | ⟨y, U, hcons, -, hsame, -⟩⟩ := hruns.1 rfl
    · cases hnil
    · cases hcons
      exact absurd hsame (by decide)
  obtain ⟨g, hrun, hafter⟩ := DumpRun.stay .start hf.reading htape hhead
    (Tape.settle_stay (e := Tape.headEvent (1, .simple 0xff 1 7 5)) rfl)
  obtain ⟨k, hrun, -⟩ := DumpRun.stay hrun hafter.1 hafter.2.2.2 hpair
    (Tape.settle_stay (e := Tape.pair (2, .simple 0 2 7 5) (3, .simple 0xff 3 8 5)) rfl)
  exact ⟨f, _, k, hf, hrun, rfl, (dumpRun_forward _ _ _ hf _ _ hrun).2.1⟩

/-- A recording that begins with its first VMEnter, and ends with an event without effect. -/
def noEffectAtEnd : Recording :=
  .ofRecords [.simple 0xff 1 7 5, .simple 0 2 7 5, .simple 0xff 3 7 5] (by decide) (by decide)

/-- On it, the position after the second event is the one before zero. -/
theorem dumpRun_not_forward : ¬ ∀ (R : Recording) (data : Option (List UInt8)) (f₀ : SyncFile)
    (es : List SyncEvent) (g : SyncFile), Loaded R data f₀ → DumpRun (fun _ => True) f₀ es g →
    (es.Pairwise fun e e' => e.position < e'.position) ∧ g.position ≤ g.sync_point_count := by
  intro halways
  obtain ⟨f, hf⟩ : ∃ f, Loaded noEffectAtEnd none f := Recording.ofRecords_loaded
  have htape : noEffectAtEnd.tape f =
      [(1, .simple 0xff 1 7 5), (2, .simple 0 2 7 5), (3, .simple 0xff 3 7 5)] :=
    Recording.ofRecords_tape hf
  obtain ⟨g, hrun, hafter⟩ := DumpRun.stay .start hf.reading htape (fun _ _ => trivial)
    (Tape.settle_stay (e := Tape.headEvent (1, .simple 0xff 1 7 5)) rfl)
  -- The second event has no effect, and no other one follows it.
  obtain ⟨k, o, hnext, hvalid, -, hevent, hgives⟩ := hafter.1.dump hafter.2.2.2
  have hcurrent : Tape.current noEffectAtEnd.count (2, .simple 0 2 7 5) [(3, .simple 0xff 3 7 5)] =
      .offEnd (Tape.pair (2, .simple 0 2 7 5) (3, .simple 0xff 3 7 5)) :=
    Tape.settle_nothing rfl rfl
  rw [hcurrent] at hgives
  cases hgives with
  | offEnd hatt hpos =>
    have hforward := (halways _ _ f _ _ hf (hrun.step hnext hvalid trivial hevent)).2
    rw [(show SyncFile.position _ = 2 ^ 64 - 1 from hpos Recording.ofRecords_plainHeader),
      (show SyncFile.sync_point_count _ = 3 from hatt.sync_point_count)] at hforward
    exact absurd hforward (by decide)

end RvnSyncPoint
