import RvnSyncPoint.Sync.Agree
import RvnSyncPoint.Sync.LookAhead
import RvnSyncPoint.Sync.Terminates

/-!
# What reading does to the last valid position

`next()` does not touch the last valid position (`lastValid_keptByNext`), and a seek makes it the
position before the one that it ends at (`seek_lastValid`), which does not depend on the reader
(`Attached.seek_position`). So `current_event`, which is a query, changes it where the records ahead make
it go back by a seek: it stays as it was exactly when it happens to be the position before that one
(`reads_keep_lastValid`).
-/

namespace RvnSyncPoint

open LittleEndian Loop StreamableFile

section

variable {R : Recording} {c : List UInt8} {rs : UInt32} {f g : SyncFile} {k : ℕ}
  {o : Outcome SyncFile SyncEvent}

/-! ## What is written -/

/-- `next()` does not touch the last valid position. -/
theorem lastValid_keptByNext (l : ℕ) : KeptByNext fun f => f.last_valid_position = l := by
  refine keptByNext_of_readPass (fun f g h _ hpass => ?_) fun f h => ?_
  · exact (f.readPass_cache hpass).2.trans h
  · rw [SyncFile.dropEvent_eq]
    exact h

/-- A seek makes it the position before the one that it ends at. -/
theorem seek_lastValid (hne : f.record_size ≠ 0) (hseek : f.seek k = some g) :
    g.last_valid_position = g.position - 1 := by
  rcases Nat.eq_zero_or_pos k with rfl | hpos
  · rw [SyncFile.seek, if_neg hne, if_pos rfl] at hseek
    cases hseek
    rfl
  · rw [seek_placed hne (by omega)] at hseek
    obtain ⟨g, -, rfl⟩ := Option.map_eq_some_iff.mp hseek
    show (if g.position = 0 then 0 else g.position - 1) = g.position - 1
    split_ifs with h0
    · rw [h0]
    · rfl

/-- `next()` keeps the recording open. -/
theorem attached_keptByNext (R : Recording) : KeptByNext (Attached R) := by
  intro f g h hnext
  obtain ⟨dc, hd⟩ := h.data
  exact (rel_self ((attached_lockstep (Healthy.keptByData dc)).next ⟨rfl, h, hd⟩) hnext).1

/-- What `current_event` leaves: the last valid position as it was, or the one before the position that
it went back to. -/
theorem Attached.currentEvent_lastValid (h : Attached R f) (ho : f.currentEvent = some o) :
    (o.state.last_valid_position = f.last_valid_position ∧ ∀ k, ¬ f.SeeksInEvent k) ∨
      ∃ k g g', f.SeeksInEvent k ∧ Attached R g ∧ g.seek k = some g' ∧
        o.state.position = g'.position ∧ o.state.last_valid_position = g'.position - 1 := by
  -- Up to the seek, nothing but `next()` is called.
  have hkept : KeptByNext fun g => Attached R g ∧ g.last_valid_position = f.last_valid_position :=
    fun g g' h hnext => ⟨attached_keptByNext R g g' h.1 hnext, lastValid_keptByNext _ g g' h.2 hnext⟩
  obtain ⟨g, e, hstate, ⟨⟨-, hlast⟩, hnone⟩ | ⟨k, g', hk, ⟨hatt, -⟩, hseek⟩⟩ :=
    hkept.currentEvent ⟨h, rfl⟩ ho
  · exact .inl ⟨by rw [hstate]; exact hlast, hnone⟩
  · have hlast := seek_lastValid hatt.record_size_ne hseek
    refine .inr ⟨k, g', g, hk, hatt, hseek, by rw [hstate], ?_⟩
    rw [hstate]
    exact hlast

/-! ## Where a seek ends -/

/-- Two readers at the same place of a file, with no vector left over, or both after a failed seek. -/
structure SamePlace (c : List UInt8) (rs : UInt32) (f g : SyncFile) : Prop where
  left : Opened c rs f
  right : Opened c rs g
  position : f.position = g.position
  vector : f.current.interrupt_vector = 0 ∧ g.current.interrupt_vector = 0
  file : (∃ o, f.file = openAt c o ∧ g.file = openAt c o) ∨
    ∃ o o', f.file = failedAt c o ∧ g.file = failedAt c o'

/-- The read loop from the default point leaves them at the same position. -/
theorem SamePlace.skipIdentical (h : SamePlace c rs f g) :
    Option.Rel (fun f g => f.position = g.position) (SyncFile.skipIdentical {} f)
      (SyncFile.skipIdentical {} g) := by
  refine loop_rel (SamePlace c rs) _ ?_ f g h
  rintro f g ⟨hf, hg, hposition, ⟨hfvec, hgvec⟩, ⟨o, hfo, hgo⟩ | ⟨o, o', hfo, hgo⟩⟩
  · rcases Nat.lt_or_ge c.length (o + rs.toNat) with hlt | hle
    · -- The record is cut: both loops leave.
      obtain ⟨f', hf', -, hfeof, -⟩ := hf.readPass_cut hfo hlt
      obtain ⟨g', hg', -, hgeof, -⟩ := hg.readPass_cut hgo hlt
      have hfpos := readPass_position hf'
      have hgpos := readPass_position hg'
      rw [hfeof, if_pos rfl] at hfpos
      rw [hgeof, if_pos rfl] at hgpos
      rw [hf', hg']
      simp only [Option.bind_eq_bind, Option.bind_some, hfeof, hgeof, Bool.not_true, Bool.and_false,
        Bool.false_eq_true, if_false]
      exact .some (.leave (by rw [hfpos, hgpos, hposition]))
    · -- The record is whole: both take it for the default point, or neither does.
      obtain ⟨f', data, hf', hfopened, hffile, hfcur⟩ := hf.readPass_whole hfo hle
      obtain ⟨g', data', hg', hgopened, hgfile, hgcur⟩ := hg.readPass_whole hgo hle
      have hfeof : f'.eof = false := by rw [SyncFile.eof, hffile]; rfl
      have hgeof : g'.eof = false := by rw [SyncFile.eof, hgfile]; rfl
      have hpos : f'.position = g'.position := by
        rw [readPass_position hf', readPass_position hg', hfeof, hgeof, hposition]
      have hsame : SyncPoint.operatorEq {} f'.current = true ↔
          SyncPoint.operatorEq {} g'.current = true := by
        rw [hfcur, hgcur, SyncRecord.sameAs_iff _ _ _ hfvec, SyncRecord.sameAs_iff _ _ _ hgvec]
      rw [hf', hg']
      simp only [Option.bind_eq_bind, Option.bind_some, hfeof, hgeof, Bool.not_false, Bool.and_true, hsame]
      split_ifs with heq
      · have hfvec' := SyncPoint.operatorEq_vector (hsame.mpr heq)
        have hgvec' := SyncPoint.operatorEq_vector heq
        exact .some (.again ⟨hfopened, hgopened, hpos, ⟨hfvec'.symm, hgvec'.symm⟩,
          .inl ⟨_, hffile, hgfile⟩⟩)
      · exact .some (.leave hpos)
  · -- After a failed seek, both read a zero point.
    rw [readPass_failed hfo hf.version, readPass_failed hgo hg.version]
    simp only [Option.bind_eq_bind, Option.bind_some, operatorEq_default_zero, Bool.false_and,
      Bool.false_eq_true, if_false]
    exact .some (.leave (by rw [hposition]))

/-- A seek puts them there. -/
theorem Attached.placed_samePlace (hf : Attached R f) (hg : Attached R g) (k : ℕ) :
    SamePlace R.content R.record_size (f.placed k) (g.placed k) := by
  refine ⟨⟨hf.on.seek_on _, hf.version, hf.record_size, R.le_record_size, hf.data⟩,
    ⟨hg.on.seek_on _, hg.version, hg.record_size, R.le_record_size, hg.data⟩, rfl, ⟨rfl, rfl⟩, ?_⟩
  unfold SyncFile.placed
  rw [hf.record_size, hg.record_size]
  have hlt : (HEADER_SIZE + R.record_size.toNat * (k - 1)) % 2 ^ 64 < 2 ^ 64 := Nat.mod_lt _ (by decide)
  rcases Nat.lt_or_ge ((HEADER_SIZE + R.record_size.toNat * (k - 1)) % 2 ^ 64) (2 ^ 63) with hin | hout
  · exact .inl ⟨_, hf.on.seek hin, hg.on.seek hin⟩
  · obtain ⟨o, ho⟩ := hf.on.seek_neg hout hlt
    obtain ⟨o', ho'⟩ := hg.on.seek_neg hout hlt
    exact .inr ⟨o, o', ho, ho'⟩

/-- Where a seek ends does not depend on the reader. -/
theorem Attached.seek_position (hf : Attached R f) (hg : Attached R g) (k : ℕ) :
    Option.Rel (fun f g => f.position = g.position) (f.seek k) (g.seek k) := by
  by_cases hk : k = 0
  · subst hk
    rw [SyncFile.seek, SyncFile.seek, if_neg hf.record_size_ne, if_neg hg.record_size_ne, if_pos rfl,
      if_pos rfl]
    exact .some rfl
  · have hfeof : (f.placed k).eof = false := hf.on.seek_eof _
    have hgeof : (g.placed k).eof = false := hg.on.seek_eof _
    rw [seek_eq hf hk, seek_eq hg hk, SyncFile.next, SyncFile.next, hfeof, hgeof]
    refine rel_map (rel_map (hf.placed_samePlace hg k).skipIdentical fun f g h => ?_) fun f g h => h
    rw [SyncFile.dropEvent_eq, SyncFile.dropEvent_eq]
    exact h

/-- A seek to the position ends there: it is one of the file; or it is the one before zero, and the
header is plain. -/
def Recording.Reaches (R : Recording) (k : ℕ) : Prop :=
  k ≤ R.count ∨ k + 1 = 2 ^ 64 ∧ R.PlainHeader

theorem Recording.Reaches.seek (hk : R.Reaches k) (h : Attached R f) (hseek : f.seek k = some g) :
    g.position = k := by
  rcases hk with hk | ⟨hk, hplain⟩
  · rcases Nat.eq_zero_or_pos k with rfl | hpos
    · obtain ⟨g', hg', -, hpos', -⟩ := seek_zero h
      rw [hseek] at hg'
      cases hg'
      exact hpos'
    · obtain ⟨g', hg', -, hpos', -⟩ := seek_record h hpos hk
      rw [hseek] at hg'
      cases hg'
      exact hpos'
  · obtain ⟨g', hg', -, hpos'⟩ := seek_wrapped h hk
    rw [hseek] at hg'
    cases hg'
    exact hpos' hplain

/-- `current_event` that goes back to a position, as against a seek of its own to it. -/
theorem Attached.currentEvent_back (h : Attached R f) (ho : f.currentEvent = some o)
    (hk : f.SeeksInEvent k) :
    ∃ s, f.seek k = some s ∧ o.state.last_valid_position = s.position - 1 := by
  rcases h.currentEvent_lastValid ho with ⟨-, hnone⟩ | ⟨j, g, g', hj, hatt, hseek, -, hlast⟩
  · exact (hnone k hk).elim
  · obtain rfl := hj.unique hk
    have hrel := h.seek_position hatt j
    rw [hseek] at hrel
    generalize f.seek j = x at hrel
    cases hrel with
    | some hposition => exact ⟨_, rfl, by rw [hlast, hposition]⟩

/-! ## Reading -/

/-- In every state that calls reach, `next()` and `current_event` leave the last valid position as it is,
unless the records ahead make `current_event` go back; and where they do, exactly if the last valid
position already is the one before that at which the seek ends. -/
theorem reads_keep_lastValid (R : Recording) (data : Option (List UInt8)) (f₀ f g : SyncFile)
    (c : Call) (v : Value) (h₀ : Loaded R data f₀) (hrun : Run (fun _ _ => True) f₀ f)
    (hc : c = .next ∨ c = .currentEvent) (hcall : c.run f = some (.returned v g)) :
    ((∀ k, ¬ c.Seeks f k) → g.last_valid_position = f.last_valid_position) ∧
      ∀ k, c.Seeks f k → ∃ s, f.seek k = some s ∧ (R.Reaches k → s.position = k) ∧
        (g.last_valid_position = f.last_valid_position ↔ f.last_valid_position = s.position - 1) := by
  obtain ⟨hatt, -⟩ := h₀.run hrun
  rcases hc with rfl | rfl
  · obtain ⟨g', hg', hret⟩ := Option.map_eq_some_iff.mp hcall
    cases hret
    exact ⟨fun _ => lastValid_keptByNext _ f g rfl hg', fun _ hk => hk.elim⟩
  · obtain ⟨o, ho, hret⟩ := Option.map_eq_some_iff.mp hcall
    cases o with
    | thrown err g' => cases hret
    | returned e g' =>
      cases hret
      -- Where there is a seek, it writes what a seek of the reader itself would write.
      constructor
      · intro hnone
        rcases hatt.currentEvent_lastValid ho with ⟨hlast, -⟩ | ⟨k, -, -, hk, -⟩
        · exact hlast
        · exact (hnone k hk.goesBack).elim
      · intro k hk
        obtain ⟨s, hs, hlast⟩ := hatt.currentEvent_back ho ((seeksInEvent_iff ho k).mpr hk)
        have hlast' : g.last_valid_position = s.position - 1 := hlast
        refine ⟨s, hs, fun hreach => hreach.seek hatt hs, ?_⟩
        rw [hlast']
        exact eq_comm

/-- A recording that begins with its first VMEnter, and goes on with an event without effect and one
at another instruction. -/
def noEffectBefore : Recording :=
  .ofRecords [.simple 0xff 1 7 5, .simple 0 2 7 5, .simple 0xff 3 7 5, .simple 0 4 7 6,
    .simple 0xff 5 7 6] (by decide) (by decide)

/-- On a fresh reader of it, `current_event` looks ahead to the last event, and goes back to the record
before it. -/
theorem noEffectBefore_back {f : SyncFile} (h : Loaded noEffectBefore none f) :
    f.SeeksInEvent 3 ∧ ∃ e g, f.currentEvent = some (.returned e g) := by
  have htape : noEffectBefore.tape f = [(1, .simple 0xff 1 7 5), (2, .simple 0 2 7 5),
      (3, .simple 0xff 3 7 5), (4, .simple 0 4 7 6), (5, .simple 0xff 5 7 6)] :=
    Recording.ofRecords_tape h
  have hafter := h.reading.after
  obtain ⟨hpos, hcur, hev, -⟩ := h.fields
  have hc : f.current_event.is_valid = false := by rw [hev]
  rw [htape, hpos, hcur] at hafter
  -- The event at the record 2 has no effect, and does not merge with the one at the record 4.
  have heffect : (Tape.pair (2, .simple 0 2 7 5) (3, .simple 0xff 3 7 5)).withoutEffect = true := rfl
  have hmerge : (Tape.pair (2, .simple 0 2 7 5) (3, .simple 0xff 3 7 5)).mergesWith
      (Tape.pair (4, .simple 0 4 7 6) (5, .simple 0xff 5 7 6)) = false := by decide
  have hnext : Tape.fetchVmexit [(4, .simple 0 4 7 6), (5, .simple 0xff 5 7 6)] =
      .complete (Tape.pair (4, .simple 0 4 7 6) (5, .simple 0xff 5 7 6)) (5, .simple 0xff 5 7 6) [] :=
    rfl
  constructor
  · obtain ⟨o, ho, hgives⟩ := fetchNewEvent_spec hafter hc
    have hfetch : Tape.fetch (0, {}) [(1, .simple 0xff 1 7 5), (2, .simple 0 2 7 5),
        (3, .simple 0xff 3 7 5), (4, .simple 0 4 7 6), (5, .simple 0xff 5 7 6)] =
        .complete (Tape.pair (2, .simple 0 2 7 5) (3, .simple 0xff 3 7 5)) (3, .simple 0xff 3 7 5)
          [(4, .simple 0 4 7 6), (5, .simple 0xff 5 7 6)] := rfl
    rw [hfetch] at hgives
    cases hgives with
    | @complete g _ _ _ hg hsame =>
      obtain ⟨o', ho', hgives'⟩ := lookAhead_spec hg (hsame.1 ▸ hc) rfl (by decide)
      rw [hnext] at hgives'
      cases hgives' with
      | @complete g' _ _ _ hg' hsame' =>
        have hhere := SyncFile.SeeksAhead.here heffect ho' hmerge
        have hposition : (Tape.pair (4, .simple 0 4 7 6) (5, .simple 0xff 5 7 6)).position = 4 := rfl
        have hpred : pred64 4 = 3 := by decide
        rw [hposition, hpred] at hhere
        refine ⟨?_, _, g, ho, hhere⟩
        rw [hc, h.reading.eof]
        rfl
  · obtain ⟨o, ho, hgives⟩ := currentEvent_spec hafter hc (fun hv => by cases hv)
    have hcurrent : Tape.current noEffectBefore.count (0, {}) [(1, .simple 0xff 1 7 5),
        (2, .simple 0 2 7 5), (3, .simple 0xff 3 7 5), (4, .simple 0 4 7 6), (5, .simple 0xff 5 7 6)] =
        .back (Tape.pair (2, .simple 0 2 7 5) (3, .simple 0xff 3 7 5)) 4 :=
      Tape.settle_back heffect hnext hmerge
    rw [hcurrent] at hgives
    cases hgives with
    | back hread hposition hpoint hcurrent' hev' => exact ⟨_, _, ho⟩

/-- There it would keep the last valid position only if that were `2`. -/
theorem reads_keep_lastValid_back : ∃ f e g, Loaded noEffectBefore none f ∧
    f.currentEvent = some (.returned e g) ∧
    (g.last_valid_position = f.last_valid_position ↔ f.last_valid_position = 2) := by
  obtain ⟨f, hf⟩ : ∃ f, Loaded noEffectBefore none f := Recording.ofRecords_loaded
  obtain ⟨hback, e, g, hevent⟩ := noEffectBefore_back hf
  obtain ⟨s, -, hposition, hiff⟩ := (reads_keep_lastValid noEffectBefore none f f g .currentEvent _ hf
    .start (.inr rfl) (run_currentEvent hevent)).2 3 hback.goesBack
  rw [hposition (.inl (by decide))] at hiff
  exact ⟨f, e, g, hf, hevent, hiff⟩

/-- So it changes the last valid position of the fresh reader. -/
theorem not_reads_keep_lastValid : ¬ ∀ (R : Recording) (data : Option (List UInt8))
    (f₀ f g : SyncFile) (c : Call) (v : Value), Loaded R data f₀ → Run (fun _ _ => True) f₀ f →
      (c = .next ∨ c = .currentEvent) → c.run f = some (.returned v g) →
        g.last_valid_position = f.last_valid_position := by
  intro halways
  obtain ⟨f, hf⟩ : ∃ f, Loaded noEffectBefore none f := Recording.ofRecords_loaded
  obtain ⟨hback, e, g, hevent⟩ := noEffectBefore_back hf
  have hsame := halways _ _ f f g _ _ hf .start (.inr rfl) (run_currentEvent hevent)
  obtain ⟨s, hs, hlast⟩ := hf.reading.toAttached.currentEvent_back hevent hback
  have hposition : s.position = 3 :=
    Recording.Reaches.seek (.inl (by decide)) hf.reading.toAttached hs
  have hlast' : g.last_valid_position = s.position - 1 := hlast
  rw [hlast', hposition, hf.fields.2.2.2] at hsame
  cases hsame

end

end RvnSyncPoint
