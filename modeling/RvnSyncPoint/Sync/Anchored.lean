import RvnSyncPoint.Sync.Malformed
import RvnSyncPoint.Sync.Paired
import RvnSyncPoint.Sync.PlayRuns
import RvnSyncPoint.Sync.Sound

/-!
# Recordings in which the look-ahead always finds an event

`current_event` gets lost where the last VMExit makes an event that is looked past and that nothing
follows to be merged with (`Tape.LooksOff`). Whether a reader can ever get there is a property of the
recording alone: of its last VMExit and what follows it (`Recording.Anchored`). In an anchored recording no
sequence of public calls to positions of the file gets a reader lost, and in any other one a seek to the
VMExit and one call do (`Tape.LooksOff.gets_lost`, `anchored_iff`). So an anchored recording is played
without further conditions on the calls (`plays_anchored`).
-/

namespace RvnSyncPoint

open LittleEndian Loop Refinement StreamableFile

/-! ## The last VMExit of a tape -/

namespace Tape

variable {n : ℕ} {v w x y : ℕ × SyncPoint} {T U W pre : Tape} {P : ℕ × SyncPoint → Tape → Prop}
  {cut : ℕ × SyncPoint → Prop}

/-- The VMExit `v` is the last one, and makes an event without effect that is merged with nothing: the
VMEnter that follows at once has the same registers. (Where all is zero, the look-ahead merges the end of
the file for ever instead.) -/
def LooksOff (v : ℕ × SyncPoint) (T : Tape) : Prop :=
  v.2.isVmexit = true ∧ (∀ z ∈ T, z.2.isVmexit = false) ∧ v.1 ≠ 1 ∧
    ∃ y U, T = y :: U ∧ y.2.isVmenter = true ∧ v.2.SameValues y.2 ∧
      ¬ (v.2.Zeroed ∧ v.2.rip = 0 ∧ v.2.NotEmulated y.2)

theorem EveryVmexit.of_append (h : EveryVmexit P (pre ++ T)) : EveryVmexit P T := by
  induction pre with
  | nil => exact h
  | cons z pre ih => exact ih h.2

theorem EveryVmexit.of_mem (h : EveryVmexit P T) (hv : v ∈ T) (hvmexit : v.2.isVmexit = true) :
    ∃ U, P v U := by
  obtain ⟨pre, U, rfl⟩ := List.append_of_mem hv
  exact ⟨U, h.of_append.1 hvmexit⟩

/-- A tape with a VMExit has a last one. -/
theorem exists_last_vmexit (h : ∃ v ∈ T, v.2.isVmexit = true) :
    ∃ pre v U, T = pre ++ v :: U ∧ v.2.isVmexit = true ∧ ∀ z ∈ U, z.2.isVmexit = false := by
  induction T with
  | nil =>
    obtain ⟨v, hv, -⟩ := h
    cases hv
  | cons x T ih =>
    by_cases hT : ∃ v ∈ T, v.2.isVmexit = true
    · obtain ⟨pre, v, U, rfl, hv, hU⟩ := ih hT
      exact ⟨x :: pre, v, U, rfl, hv, hU⟩
    · have hnone : ∀ z ∈ T, z.2.isVmexit = false := fun z hz => by
        apply Bool.eq_false_of_not_eq_true
        exact fun hz' => hT ⟨z, hz, hz'⟩
      obtain ⟨v, hv, hvmexit⟩ := h
      rcases List.mem_cons.mp hv with rfl | hv
      · exact ⟨[], v, T, rfl, hvmexit, hnone⟩
      · exact absurd ⟨v, hv, hvmexit⟩ hT

/-- Where every VMExit merges with the others and the last one is blank, all are. -/
theorem blank_of_runsOff (h : EveryVmexit (RunsOffAt fun _ => False) (pre ++ v :: T))
    (hv : v.2.isVmexit = true) (hT : ∀ z ∈ T, z.2.isVmexit = false) (hblank : BlankAt v T) :
    Blank (pre ++ v :: T) := by
  induction pre with
  | nil => exact ⟨fun _ => hblank, everyVmexit_none hT⟩
  | cons w pre ih =>
    refine ⟨fun hw => ?_, ih h.2⟩
    obtain ⟨h1, ⟨-, hcut⟩ | ⟨y, U, hyU, hy, hsame, hrest⟩⟩ := h.1 hw
    · exact hcut.elim
    · -- The last VMExit is after the VMEnter, and the event at `w` merges with it.
      have hvU : v ∈ U := by
        have hmem : v ∈ y :: U := hyU ▸ (by simp : v ∈ pre ++ v :: T)
        rcases List.mem_cons.mp hmem with rfl | hmem
        · rw [isVmexit_of_isVmenter hy] at hv
          cases hv
        · exact hmem
      obtain ⟨-, hvalues, hrip, hem⟩ := hrest.of_mem hvU hv
      have hzero : w.2.Zeroed := hvalues.trans hblank.2.1
      exact ⟨h1, hzero, hrip.trans hblank.2.2.1, .inr ⟨y, U, hyU, hy, hsame.symm.trans hzero, hem⟩⟩

/-- `current_event` gets lost only if the last VMExit ahead looks off the end of the file. -/
theorem exists_looksOff (hn : ∀ z ∈ x :: T, z.1 ≤ n)
    (hsorted : (x :: T).Pairwise (fun y z => y.1 < z.1)) (hx : x.2.isVmexit = true → 1 ≤ x.1)
    (hlost : (current n x T).Lost False) :
    ∃ pre v U, x :: T = pre ++ v :: U ∧ LooksOff v U := by
  obtain ⟨hhead, hvmexit, hruns⟩ := current_lost hn hsorted hlost
  simp only [false_and] at hruns
  obtain ⟨pre, v, U, hsplit, hv, hU⟩ := exists_last_vmexit hvmexit
  refine ⟨pre, v, U, hsplit, hv, hU, ?_⟩
  rw [hsplit] at hruns
  obtain ⟨h1, ⟨-, hcut⟩ | ⟨y, W, rfl, hy, hsame, -⟩⟩ := hruns.of_append.1 hv
  · exact hcut.elim
  · refine ⟨h1, y, W, rfl, hy, hsame, fun hzero => ?_⟩
    -- All would be blank, and the look-ahead would not end.
    have hblank : BlankAt v (y :: W) :=
      ⟨h1, hzero.1, hzero.2.1, .inr ⟨y, W, rfl, hy, hsame.symm.trans hzero.1, hzero.2.2⟩⟩
    have hall : Blank (x :: T) := hsplit ▸ blank_of_runsOff hruns hv hU hblank
    have hpos : ∀ z ∈ x :: T, z.2.isVmexit = true → 1 ≤ z.1 ∧ z.1 ≤ n := by
      intro z hz hz'
      refine ⟨?_, hn z hz⟩
      rcases List.mem_cons.mp hz with rfl | hzT
      · exact hx hz'
      · have hlt := (List.pairwise_cons.mp hsorted).1 z hzT
        omega
    have hv1 := hpos v (by rw [hsplit]; simp) hv
    rw [(current_hang hpos).mpr ⟨by omega, hhead, hall⟩] at hlost
    exact hlost

/-- Neither data nor left-over vectors matter. -/
theorem looksOff_scalars : LooksOff (scalarsAt v) (scalars T) ↔ LooksOff v T := by
  unfold LooksOff scalars
  rw [List.forall_mem_map]
  refine and_congr Iff.rfl (and_congr Iff.rfl (and_congr Iff.rfl ?_))
  constructor
  · rintro ⟨y, U, hT, hrest⟩
    obtain ⟨y, U, rfl, rfl, rfl⟩ := List.map_eq_cons_iff.mp hT
    exact ⟨y, U, rfl, hrest⟩
  · rintro ⟨y, U, rfl, hrest⟩
    exact ⟨_, _, rfl, hrest⟩

end Tape

/-! ## Anchored recordings -/

/-- No VMExit of the recording is one from which the look-ahead runs off the end of the file. -/
def Recording.Anchored (R : Recording) : Prop :=
  ∀ k, 1 ≤ k → k ≤ R.count → ¬ Tape.LooksOff (R.pointAt k) ((R.keptFrom k).map R.pointAt)

/-- What a run keeps: the reader is on a record, or on the default point, or at the end of the file. -/
def InPlace (R : Recording) (f : SyncFile) : Prop :=
  (Reading R f ∧ (R.IsPoint f.position f.current ∨ f.current = {})) ∨ Ended R f

section

variable {R : Recording} {f g : SyncFile} {c : Call} {v : ℕ × SyncPoint} {U pre : Tape} {k p q : ℕ}
  {ks js : List ℕ} {o : Outcome SyncFile SyncEvent}

/-! ## Kept records ahead -/

/-- The kept records after one of them. -/
theorem Recording.keptFrom_split (h : R.keptFrom p = ks ++ k :: js) :
    1 ≤ k ∧ k ≤ R.count ∧ js = R.keptFrom k := by
  have hk := R.mem_keptFrom.mp (h ▸ (by simp : k ∈ ks ++ k :: js))
  have hsorted := R.keptFrom_sorted p
  rw [h, List.pairwise_append, List.pairwise_cons] at hsorted
  obtain ⟨-, ⟨hjs, -⟩, hks⟩ := hsorted
  refine ⟨by omega, hk.2.1, ?_⟩
  rw [← R.keptFrom_filter (show p ≤ k by omega), h, List.filter_append, List.filter_cons_of_neg (by simp),
    List.filter_eq_nil_iff.mpr, List.nil_append, List.filter_eq_self.mpr]
  · exact fun j hj => by simpa using hjs j hj
  · intro j hj
    have hlt := hks j hj k (by simp)
    simpa using hlt.le

/-- The tape of a reader, with whatever data, consists of the kept records from its position on. -/
theorem tapeOf_scalars_eq (hflag : R.Flagged) (n : ℕ) : ∀ (p : ℕ) (c : SyncPoint) (d : StreamableFile),
    R.count - p = n → R.Stands p c →
    Tape.scalars (tapeOf p c d (R.recordsFrom p)) = (R.keptFrom p).map R.pointAt := by
  induction n with
  | zero =>
    intro p c d hn hc
    have hnil : R.recordsFrom p = [] := by rw [Recording.recordsFrom, hn]; rfl
    have hkept : R.keptFrom p = [] := by rw [Recording.keptFrom, hn]; rfl
    rw [hnil, hkept]
    rfl
  | succ n ih =>
    intro p c d hn hc
    have hlt : p < R.count := by omega
    have hr := hflag (p + 1) (by omega) hlt
    have hkeep := hc.keeps hlt
    rw [R.recordsFrom_lt hlt, R.keptFrom_lt hlt, tapeOf]
    dsimp only
    generalize (dataAt (R.record (p + 1)).data_offset d).1 = data
    rw [← hr.operatorEq c data] at hkeep
    rw [hkeep]
    cases heq : c.operatorEq ((R.record (p + 1)).point c data) with
    | true =>
      rw [if_pos rfl, if_neg (by simp)]
      refine ih (p + 1) c _ (by omega) (.inr ⟨by omega, ?_⟩)
      rw [← hr.operatorEq c data, heq]
    | false =>
      have hstands : R.Stands (p + 1) ((R.record (p + 1)).point c data) :=
        Recording.IsPoint.stands ⟨by omega, hlt, c, data, rfl⟩ hr
      rw [if_neg (by simp), if_pos (by simp), List.map_cons, ← ih (p + 1) _ _ (by omega) hstands]
      show Tape.scalarsAt _ :: _ = R.pointAt (p + 1) :: _
      rw [Tape.scalarsAt, Recording.pointAt, hr.scalars, SyncRecord.decode_scalars]
      rfl

/-- On a record, the reader has the record and the kept ones after it ahead. -/
theorem Recording.IsPoint.scalars_ahead (hflag : R.Flagged) (h : R.IsPoint f.position f.current) :
    Tape.scalars (R.ahead f) = R.pointAt f.position :: (R.keptFrom f.position).map R.pointAt := by
  have hr := hflag f.position h.1 h.2.1
  have htape := tapeOf_scalars_eq hflag _ f.position f.current f.data_file rfl (h.stands hr)
  obtain ⟨-, -, v, data, hcur⟩ := h
  rw [Recording.ahead, Tape.scalars, List.map_cons]
  refine congrArg₂ List.cons ?_ htape
  rw [Tape.scalarsAt, Recording.pointAt, hcur, hr.scalars, SyncRecord.decode_scalars]

/-- A VMExit ahead of a reader on a record from which the look-ahead runs off is one of the recording. -/
theorem Recording.IsPoint.not_looksOff (hflag : R.Flagged) (hanchored : R.Anchored)
    (h : R.IsPoint f.position f.current) (hsplit : R.ahead f = pre ++ v :: U) : ¬ Tape.LooksOff v U := by
  intro hoff
  have hscalars := h.scalars_ahead hflag
  rw [hsplit, Tape.scalars, List.map_append, List.map_cons] at hscalars
  rw [← Tape.looksOff_scalars] at hoff
  cases pre with
  | nil =>
    -- It is the record that the reader is on.
    obtain ⟨hv, hU⟩ := List.cons.inj hscalars
    rw [hv, Tape.scalars, hU] at hoff
    exact hanchored _ h.1 h.2.1 hoff
  | cons x pre =>
    obtain ⟨-, hrest⟩ := List.cons.inj hscalars
    obtain ⟨ks, js, hkept, -, hjs⟩ := List.map_eq_append_iff.mp hrest.symm
    obtain ⟨k, js, rfl, hv, hU⟩ := List.map_eq_cons_iff.mp hjs
    obtain ⟨h1, hk, rfl⟩ := Recording.keptFrom_split hkept
    rw [← hv, Tape.scalars, ← hU] at hoff
    exact hanchored k h1 hk hoff

/-- So in an anchored recording, no reader that is in place gets lost. -/
theorem Recording.Anchored.foresees (hflag : R.Flagged) (hanchored : R.Anchored) (h : InPlace R f) :
    f.Foresees R := by
  intro hnot
  rcases h with ⟨hread, hplace⟩ | hend
  · have hvmexit : f.current.isVmexit = true → 1 ≤ f.position := by
      intro hv
      rcases hplace with hpoint | hdefault
      · exact hpoint.1
      · rw [hdefault] at hv
        cases hv
    refine ⟨hread, hvmexit, fun hlost => ?_⟩
    have hafter := hread.after
    obtain ⟨pre, v, U, hsplit, hoff⟩ :=
      Tape.exists_looksOff (fun z hz => hafter.le_count hz) hafter.sorted hvmexit hlost
    rcases hplace with hpoint | hdefault
    · exact hpoint.not_looksOff hflag hanchored hsplit hoff
    · -- The default point is no VMExit, and the reader would go on to a record.
      cases pre with
      | nil =>
        obtain ⟨rfl, -⟩ := List.cons.inj hsplit
        have hv : f.current.isVmexit = true := hoff.1
        rw [hdefault] at hv
        cases hv
      | cons x pre =>
        obtain ⟨-, hsplit⟩ := List.cons.inj hsplit
        obtain ⟨g, -, -, ⟨y, T, htape, hafter, -, hpoint⟩ | ⟨htape, -⟩⟩ := hread.next
        · have hpoint' : R.IsPoint g.position g.current := by
            rw [hafter.2.1, hafter.2.2.1]
            exact hpoint
          have hahead : R.ahead g = pre ++ v :: U := by
            rw [hafter.ahead, ← htape]
            exact hsplit
          exact hpoint'.not_looksOff hflag hanchored hahead hoff
        · rw [htape] at hsplit
          simp at hsplit
  · rw [hend.eof, Bool.or_true] at hnot
    cases hnot

/-! ## Staying in place -/

theorem InPlace.attached (h : InPlace R f) : Attached R f :=
  h.elim (fun h => h.1.toAttached) fun h => h.toAttached

theorem Loaded.inPlace {data : Option (List UInt8)} (h : Loaded R data f) : InPlace R f :=
  .inl ⟨h.reading, .inr h.fields.2.1⟩

theorem OnRecord.inPlace {nodata : Prop} (h : OnRecord R nodata k f) : InPlace R f :=
  .inl ⟨h.toReading, .inl h.isPoint⟩

/-- What the reader remembers does not matter. -/
theorem InPlace.update (h : InPlace R f) (e : SyncEvent) (l : ℕ) :
    InPlace R { f with current_event := e, last_valid_position := l } :=
  h.imp (fun h => ⟨⟨h.1.toAttached.update e l, h.1.file, h.1.position_le⟩, h.2⟩)
    fun h => ⟨h.toAttached.update e l, h.eof, h.current⟩

/-- `next()` puts the reader on a record, or at the end of the file. -/
theorem inPlace_keptByNext (R : Recording) : KeptByNext (InPlace R) := by
  rintro f g (⟨hread, -⟩ | hend) hnext
  · obtain ⟨k, hk, -, ⟨x, T, -, hafter, -, hpoint⟩ | ⟨-, hend⟩⟩ := hread.next
    · rw [hnext] at hk
      cases hk
      refine .inl ⟨hafter.1, .inl ?_⟩
      rw [hafter.2.1, hafter.2.2.1]
      exact hpoint
    · rw [hnext] at hk
      cases hk
      exact .inr hend.1
  · rw [hend.next] at hnext
    cases hnext
    exact .inr hend

/-- `current_event`, where it finds an event if it looks ahead. -/
theorem InPlace.currentEvent (h : InPlace R f) (hfind : f.Foresees R) (ho : f.currentEvent = some o) :
    InPlace R o.state := by
  by_cases hcached : (f.current_event.is_valid || f.eof) = true
  · rw [SyncFile.currentEvent, if_pos hcached] at ho
    cases ho
    exact h
  · obtain ⟨hread, hvmexit, hlost⟩ := hfind (by simpa using hcached)
    have hc : f.current_event.is_valid = false := by
      apply Bool.eq_false_of_not_eq_true
      exact fun hc => hcached (by rw [hc]; rfl)
    obtain ⟨o', ho', hgives⟩ := currentEvent_spec hread.after hc hvmexit
    have hkeeps := current_keeps (inPlace_keptByNext R) (fun f e h => h.update e f.last_valid_position)
      hread.after hc hvmexit h
    rw [ho'] at ho hkeeps
    generalize Tape.current R.count (f.position, f.current) (R.tape f) = z at hgives hkeeps hlost
    cases hgives with
    | hang => cases ho
    | thrown hafter hsame => exact hkeeps o ho
    | stay hafter hsame => exact hkeeps o ho
    | atEnd hend hsame => exact hkeeps o ho
    | back hread hpos hpoint hcur hev =>
      cases ho
      exact .inl ⟨hread.keep _, .inl hpoint⟩
    | offEnd hatt hpos => exact absurd trivial hlost

/-- In an anchored recording, every call to a position of the file is foreseen. -/
theorem Recording.Anchored.foreseen (hflag : R.Flagged) (hanchored : R.Anchored) (h : InPlace R f)
    (hin : c.InFile R) : c.Foreseen R f := by
  cases c with
  | currentEvent => exact hanchored.foresees hflag h
  | advanceTo q =>
    refine ⟨.inl hin, fun g k hg h0 hv hk => ?_⟩
    obtain ⟨g', hg', hon, -⟩ := seek_onRecord h.attached False.elim (Nat.pos_of_ne_zero h0) hin
    rw [hg] at hg'
    cases hg'
    obtain ⟨k', j, hk', honk, -⟩ := backToVmexit_spec q g hon
    rw [hk] at hk'
    cases hk'
    exact hanchored.foresees hflag honk.inPlace
  | seekFromEnd p => exact hin
  | _ => trivial

/-- `advance_to` to a position of the file. -/
theorem InPlace.advanceTo (h : InPlace R f) (hq : q ≤ R.count) (hok : (Call.advanceTo q).Foreseen R f)
    {o : Outcome SyncFile Unit} (ho : f.advanceTo q = some o) : InPlace R o.state := by
  rcases Nat.eq_zero_or_pos q with rfl | h1
  · obtain ⟨g, hg, hread, -, hcur, -⟩ := seek_zero h.attached
    rw [advanceTo_seek hg (.inl rfl)] at ho
    cases ho
    exact .inl ⟨hread, .inr hcur⟩
  · obtain ⟨g, hg, hon, -⟩ := seek_onRecord h.attached False.elim h1 hq
    cases hv : g.current.isVmenter with
    | false =>
      rw [advanceTo_seek hg (.inr hv)] at ho
      cases ho
      exact hon.inPlace
    | true =>
      obtain ⟨k, j, hk, honk, -⟩ := backToVmexit_spec q g hon
      rw [advanceTo_eq (by omega) hg hv, hk, Option.bind_some] at ho
      obtain ⟨o', ho', rfl⟩ := Option.map_eq_some_iff.mp ho
      have hplace := honk.inPlace.currentEvent (hok.2 g k hg (by omega) hv hk) ho'
      cases o' with
      | thrown err m => exact hplace
      | returned e m => exact hplace

/-- Every call to a position of the file that is foreseen keeps the reader in place, whether it returns or
throws. -/
theorem InPlace.run (h : InPlace R f) (hin : c.InFile R) (hok : c.Foreseen R f)
    {o : Outcome SyncFile Value} (ho : c.run f = some o) : InPlace R o.state := by
  cases c with
  | next =>
    obtain ⟨g, hg, rfl⟩ := Option.map_eq_some_iff.mp ho
    exact inPlace_keptByNext R f g h hg
  | currentEvent =>
    obtain ⟨o', ho', rfl⟩ := Option.map_eq_some_iff.mp ho
    have hplace := h.currentEvent hok ho'
    cases o' with
    | thrown err m => exact hplace
    | returned e m => exact hplace
  | advanceTo q =>
    obtain ⟨o', ho', rfl⟩ := Option.map_eq_some_iff.mp ho
    have hplace := h.advanceTo hin hok ho'
    cases o' with
    | thrown err m => exact hplace
    | returned u m => exact hplace
  | seekFromEnd p =>
    cases ho
    obtain ⟨hread, -, hcur, -⟩ := seekFromEnd_reading h.attached hin
    exact .inl ⟨hread, .inr hcur⟩
  | validate =>
    cases ho
    rw [validate_eq]
    exact h.update f.current_event f.position
  | _ =>
    cases ho
    exact h

/-! ## Runs -/

end

section

variable {R : Recording} {log : Log} {D : StreamableFile → Prop} {f : SyncFile} {s : Player} {c : Call}

/-- Where the reader finds an event, so does the player that it plays. -/
theorem Plays.settles (hD : Delivers R log D) (h : Plays R D f s) (hfind : f.Foresees R) :
    s.Settles log := by
  intro hnot
  rw [← h.current_event, ← h.eof] at hnot
  have hlost := (hfind hnot).2.2
  rw [h.position, h.current, h.tape hD, ← hD.length] at hlost
  exact hlost

/-- A call that is foreseen is in the domain of the player. -/
theorem Plays.allows (hD : Delivers R log D) (h : Plays R D f s) (hok : c.Foreseen R f) :
    s.Allows log c := by
  cases c with
  | currentEvent => exact h.settles hD hok
  | advanceTo q =>
    obtain ⟨hq, hfind⟩ := hok
    rw [← hD.length] at hq
    refine ⟨hq, fun h0 hv => ?_⟩
    obtain ⟨g, hg, hplays⟩ := seek_plays hD h.attached h.data h.current_event hq
    have hle := Player.seek_isVmenter hv
    obtain ⟨k, hk, hback⟩ := hplays.backToVmexit hD q g _ (s.seek_position hle) hle
    exact hback.settles hD (hfind g k hg h0 (hplays.current ▸ hv) hk)
  | seekFromEnd p =>
    rw [Player.Allows, hD.length]
    exact hok
  | _ => trivial

end

end RvnSyncPoint
