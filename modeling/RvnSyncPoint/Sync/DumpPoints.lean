import RvnSyncPoint.Sync.Formats
import RvnSyncPoint.Sync.LookAhead
import RvnSyncPoint.Sync.PointText

/-!
# `dump_sync_points`

The program that prints the points of a sync file (`bin/dump_sync_points/dump_sync_points.cpp`). On a
recording it ends, and prints the number of records and one line for each point that `next()` returns.
What it prints tells how many records there are, which of them were skipped, and of the others what is
shown of a point, and nothing else (`dumpSyncPoints_inj`).
-/

namespace RvnSyncPoint

open Loop Printing StreamableFile

/-- How a program ends: `main` returns, an exception leaves it, or it divides by zero. -/
inductive Exit where
  | returned
  | thrown (err : RuntimeError)
  | divisionByZero
deriving DecidableEq

/-- `std::cout << "Number of sync points: " << file.sync_point_count() << std::endl`. -/
def Ostream.syncPointCount (file : SyncFile) (cout : Ostream) : Ostream :=
  cout |>.str "Number of sync points: " |>.number file.sync_point_count |>.endl

/-- The line of a point. -/
def Ostream.pointLine (position : ℕ) (point : SyncPoint) (cout : Ostream) : Ostream :=
  cout |>.setfill ' ' |>.dec |>.setw 8 |>.number position |>.str ": " |>.syncPoint point |>.endl

/-- One pass of a loop `while (file.next().valid())` that prints the position and the current point. -/
def printPass (print : ℕ → SyncPoint → Ostream → Ostream) :
    SyncFile × Ostream → Option (SyncFile × Ostream ⊕ Ostream)
  | (file, cout) => do
    let file ← file.next
    return if file.current.valid then .inl (file, print file.position file.current cout) else .inr cout

/-- One pass of the loop of `dump_sync_points`. -/
def pointPass : SyncFile × Ostream → Option (SyncFile × Ostream ⊕ Ostream) :=
  printPass Ostream.pointLine

/-- `main()` of `dump_sync_points` with a file, which is opened without a data file. -/
def dumpSyncPoints (u : Uninitialised) (source : Option (List UInt8)) : Option (Exit × Ostream) :=
  match (SyncFile.new u).load source none with
  | .thrown err _ => some (.thrown err, {})
  | .divisionByZero => some (.divisionByZero, {})
  -- What `load` returns is not looked at: a reader that is closed has no points.
  | .returned _ file => do
    let cout := ({} : Ostream).syncPointCount file
    return (.returned, ← loop pointPass (file, cout))

/-! ## The text -/

/-- The text of the line with the number of sync points. -/
def countText (n : ℕ) : List Char := "Number of sync points: ".toList ++ Nat.toDigits 10 n ++ ['\n']

/-- The text of the line of a point. -/
def pointLineText (x : ℕ × SyncPoint) : List Char :=
  (Nat.toDigits 10 x.1).leftpad 8 ' ' ++ ": ".toList ++ x.2.text ++ ['\n']

theorem Ostream.syncPointCount_eq (f : SyncFile) :
    ({} : Ostream).syncPointCount f = ⟨countText f.sync_point_count, .dec, false, ' ', 0⟩ := by
  unfold syncPointCount
  rw [str_mk_zero, number_mk_zero, numeral_dec]
  rfl

/-- Whatever fill character, base and width were left by what was printed before. -/
theorem Ostream.pointLine_eq (x : ℕ × SyncPoint) {out : Ostream} (h : out.showbase = false) :
    out.pointLine x.1 x.2 = ⟨out.text ++ pointLineText x, .dec, false, '0', 0⟩ := by
  obtain ⟨t, base, showbase, fill, width⟩ := out
  obtain rfl : showbase = false := h
  have hstart : (Ostream.mk t base false fill width).pointLine x.1 x.2 =
      ((Ostream.mk (t ++ ((Nat.toDigits 10 x.1).leftpad 8 ' ' ++ ": ".toList)) .dec false ' '
        0).syncPoint x.2).endl := by
    simp [pointLine, setfill, dec, setw, number, str, insert, numeral, Base.radix, List.leftpad]
  rw [hstart, syncPoint_eq x.2 rfl]
  simp [endl, pointLineText]

/-- The lines of points, after a line that leaves the stream without `showbase`. -/
theorem Ostream.pointLines_text (T : Tape) :
    ∀ out : Ostream, out.showbase = false →
      (T.foldl (fun out x => out.pointLine x.1 x.2) out).text = out.text ++ T.flatMap pointLineText := by
  induction T with
  | nil => simp
  | cons x T ih =>
    intro out h
    rw [List.foldl_cons, ih _ (by rw [pointLine_eq x h]), pointLine_eq x h, List.flatMap_cons,
      List.append_assoc]

/-- Two lines, followed by anything. -/
theorem pointLineText_determines : Determines (fun _ _ => True) pointLineText
    fun x y => x.1 = y.1 ∧ x.2.shown = y.2.shown := by
  intro x y s t _ h
  unfold pointLineText at h
  have hnot (n : ℕ) : ':' ∉ (Nat.toDigits 10 n).leftpad 8 ' ' :=
    not_mem_leftpad (by decide) (not_mem_numeral (by norm_num) (by norm_num) (by decide) n)
  have hcolon : ": ".toList = ':' :: [' '] := rfl
  simp only [hcolon, List.append_assoc, List.cons_append, List.nil_append] at h
  obtain ⟨hposition, hrest⟩ := append_cons_inj (hnot x.1) (hnot y.1) h
  obtain ⟨hshown, hst⟩ := SyncPoint.text_append_inj (List.cons.inj hrest).2
  exact ⟨⟨leftpad_toDigits_injective (by norm_num) (by norm_num) rfl hposition, hshown⟩, hst⟩

/-! ## The loop -/

section

variable {R : Recording} {f : SyncFile}

/-- The loop prints the points of the tape. -/
theorem loop_printPass (print : ℕ → SyncPoint → Ostream → Ostream) (T : Tape) :
    ∀ (f : SyncFile) (cout : Ostream), Reading R f → R.tape f = T →
      loop (printPass print) (f, cout) = some (T.foldl (fun out x => print x.1 x.2 out) cout) := by
  induction T with
  | nil =>
    intro f cout hf hT
    obtain ⟨g, hg, hafter, -⟩ := next_reading hf
    rw [hT] at hafter
    exact loop_leave (by simp [printPass, hg, hafter.1.not_valid])
  | cons x T ih =>
    intro f cout hf hT
    obtain ⟨g, hg, hafter, -⟩ := next_reading hf
    obtain ⟨-, hpoint⟩ := Recording.mem_tape (R := R) (f := f) (x := x) (by simp [hT])
    rw [hT] at hafter
    obtain ⟨hread, hposition, hcurrent, htape⟩ := hafter
    have hvalid : g.current.valid = true := by
      rw [hcurrent]
      exact hpoint.valid
    have hpass : printPass print (f, cout) = some (.inl (g, print x.1 x.2 cout)) := by
      simp [printPass, hg, hvalid, ← hposition, ← hcurrent]
    rw [loop_again hpass, List.foldl_cons]
    exact ih g _ hread htape

/-- What `next()` returns on a new reader of the recording, without a data file. -/
def Recording.dumped (R : Recording) : Tape := tapeOf 0 {} noData (R.recordsFrom 0)

/-- The points with their positions, as their lines show them. -/
def Tape.shown (T : Tape) : Tape := T.map fun x => (x.1, x.2.shown)

/-- What `dump_sync_points` prints of a recording. -/
theorem dumpSyncPoints_eq (R : Recording) (u : Uninitialised) :
    ∃ out, dumpSyncPoints u (some R.content) = some (.returned, out) ∧
      out.text = countText R.count ++ R.dumped.flatMap pointLineText := by
  obtain ⟨f, hf, hload⟩ := Loaded.exists_no_data R u
  obtain ⟨hposition, hcurrent, -, -⟩ := hf.fields
  have htape : R.tape f = R.dumped := by
    rw [Recording.tape, hposition, hcurrent, tapeOf_eof hf.no_data, Recording.dumped]
  have hcount : f.sync_point_count = R.count := hf.reading.sync_point_count
  refine ⟨R.dumped.foldl (fun out x => out.pointLine x.1 x.2) (({} : Ostream).syncPointCount f), ?_, ?_⟩
  · simp only [dumpSyncPoints, hload, pointPass, loop_printPass _ _ f _ hf.reading htape]
    rfl
  · rw [Ostream.pointLines_text _ _ (by rw [Ostream.syncPointCount_eq]), Ostream.syncPointCount_eq,
      hcount]

/-- The first line, followed by anything. -/
theorem countText_determines : Determines (fun _ _ => True) countText fun n m => n = m := by
  have hnot (n : ℕ) : '\n' ∉ "Number of sync points: ".toList ++ Nat.toDigits 10 n := by
    rw [List.mem_append, not_or]
    exact ⟨by decide, not_mem_numeral (by norm_num) (by norm_num) (by decide) n⟩
  exact .terminated (fun n m _ => ⟨hnot n, hnot m⟩) fun n m _ h =>
    toDigits_injective (by norm_num) (by norm_num) (List.append_cancel_left h)

/-- The lines of points tell what is shown of them. -/
theorem pointLines_inj {T U : Tape} :
    T.flatMap pointLineText = U.flatMap pointLineText ↔ T.shown = U.shown := by
  constructor
  · intro h
    have hne (x : ℕ × SyncPoint) : pointLineText x ≠ [] := by simp [pointLineText]
    have hall := pointLineText_determines.flatMap_eq hne T U (by simp) h
    rw [Tape.shown, Tape.shown, ← List.forall₂_eq_eq_eq, List.forall₂_map_left_iff,
      List.forall₂_map_right_iff]
    exact hall.imp fun x y h => Prod.ext h.1 h.2
  · intro h
    have hlines (T : Tape) : T.flatMap pointLineText = T.shown.flatMap pointLineText := by
      rw [Tape.shown, List.flatMap_map]
      refine List.flatMap_congr fun x _ => ?_
      rw [pointLineText, pointLineText, SyncPoint.text_shown]
    rw [hlines T, h, ← hlines]

/-- `dump_sync_points` ends on every recording. On two recordings it prints the same exactly when they
have as many records, skip the same ones as identical to the point before them, and agree on what is shown
of the others. -/
theorem dumpSyncPoints_inj (R S : Recording) (u v : Uninitialised) :
    ∃ out out', dumpSyncPoints u (some R.content) = some (.returned, out) ∧
      dumpSyncPoints v (some S.content) = some (.returned, out') ∧
      (out.text = out'.text ↔ R.count = S.count ∧ R.dumped.shown = S.dumped.shown) := by
  obtain ⟨out, hout, htext⟩ := dumpSyncPoints_eq R u
  obtain ⟨out', hout', htext'⟩ := dumpSyncPoints_eq S v
  refine ⟨out, out', hout, hout', ?_⟩
  rw [htext, htext', ← pointLines_inj]
  constructor
  · intro h
    exact countText_determines _ _ _ _ trivial h
  · rintro ⟨hcount, hlines⟩
    rw [hcount, hlines]

end

/-! ## The old format -/

/-- The same point, up to the vector of what is not an interrupt, looks the same. -/
theorem SamePoint.shown {p q : SyncPoint} (h : SamePoint p q) : p.shown = q.shown := by
  obtain ⟨hrest, hvector⟩ := h
  simp only [SyncPoint.mk.injEq] at hrest
  have hkind : p.isInterrupt = q.isInterrupt := by
    unfold SyncPoint.isInterrupt
    simp only [hrest]
  simp only [SyncPoint.shown, SyncPoint.mk.injEq, ← hkind]
  split_ifs with hp
  · have hv := hvector hp
    simp_all
  · simp_all

/-- The loop on twins. -/
theorem loop_pointPass_twins {A : RecordingV2} {B : Recording} {f g : SyncFile} (hA : A.Plain)
    (hAB : Rewrites A B) (h : Twins A B f g) {cout : Ostream} (hcout : cout.showbase = false) :
    loop pointPass (f, cout) = loop pointPass (g, cout) := by
  let Rel (x y : SyncFile × Ostream) : Prop :=
    Twins A B x.1 y.1 ∧ x.2 = y.2 ∧ x.2.showbase = false
  have hrel : Option.Rel Eq (loop pointPass (f, cout)) (loop pointPass (g, cout)) := by
    refine loop_rel Rel Eq ?_ _ _ ⟨h, rfl, hcout⟩
    rintro ⟨f, cout⟩ ⟨g, cout'⟩ ⟨h, rfl, hcout⟩
    obtain ⟨f', g', hf, hg, h'⟩ := h.next hA hAB
    have hvalid : f'.current.valid = g'.current.valid := by
      have htsc := congrArg SyncPoint.tsc h'.current.1
      dsimp only at htsc
      rw [SyncPoint.valid, SyncPoint.valid, htsc]
    have hline : cout.pointLine f'.position f'.current = cout.pointLine g'.position g'.current := by
      rw [Ostream.pointLine_eq (f'.position, f'.current) hcout,
        Ostream.pointLine_eq (g'.position, g'.current) hcout, pointLineText, pointLineText,
        h'.position, SyncPoint.text_inj.mpr h'.current.shown]
    simp only [pointPass, printPass, hf, hg, Option.bind_eq_bind, Option.bind_some]
    refine .some ?_
    rw [hvalid]
    split_ifs
    · exact .again ⟨h', hline, by rw [Ostream.pointLine_eq (f'.position, f'.current) hcout]⟩
    · exact .leave rfl
  generalize loop pointPass (f, cout) = x, loop pointPass (g, cout) = y at hrel
  cases hrel with
  | some h => rw [h]
  | none => rfl

/-- Any new reader can load a recording in the old format on its own. -/
theorem load_recordingV2_no_data (A : RecordingV2) (u : Uninitialised) :
    ∃ f, LoadedV2 A none f ∧ (SyncFile.new u).load (some A.content) none = .returned true f ∧
      f.sync_point_count = A.count := by
  have hload := load_recordingV2 A (.new u) none
  unfold SyncFile.loadData at hload
  rw [if_pos (load_none_eof _)] at hload
  exact ⟨_, ⟨u, hload⟩, hload, rfl⟩

/-- A recording in the old format and the same in the new one look the same, whatever the memory of the
two readers held. -/
theorem dumpSyncPoints_formats (A : RecordingV2) (B : Recording) (hA : A.Plain) (hAB : Rewrites A B)
    (u v : Uninitialised) :
    ∃ out, dumpSyncPoints u (some A.content) = some (.returned, out) ∧
      dumpSyncPoints v (some B.content) = some (.returned, out) := by
  obtain ⟨f, hf, hloadA, hcount⟩ := load_recordingV2_no_data A u
  obtain ⟨g, hg, hloadB⟩ := Loaded.exists_no_data B v
  obtain ⟨out, hout, -⟩ := dumpSyncPoints_eq B v
  refine ⟨out, ?_, hout⟩
  rw [← hout, dumpSyncPoints, dumpSyncPoints, hloadA, hloadB]
  have hfirst : ({} : Ostream).syncPointCount f = ({} : Ostream).syncPointCount g := by
    rw [Ostream.syncPointCount_eq, Ostream.syncPointCount_eq, hcount, hg.reading.sync_point_count,
      hAB.count]
  dsimp only
  rw [hfirst, loop_pointPass_twins hA hAB (hf.twins hg) (by rw [Ostream.syncPointCount_eq])]

/-- A VMExit and an interrupt, by a reader whose memory holds zeros and one whose memory does not. -/
theorem dumpSyncPoints_formats_two : ∃ (A : RecordingV2) (B : Recording) (out : Ostream), A.count = 2 ∧
    dumpSyncPoints ⟨false, false, 0, 0, fun _ => (7, .INTERRUPT)⟩ (some A.content) =
        some (.returned, out) ∧
      dumpSyncPoints ⟨false, false, 0, 0, fun _ => (0, .VMENTER)⟩ (some B.content) =
        some (.returned, out) := by
  have hlen : exitThenInterrupt.length ≤ 2 ^ 32 := by decide
  have hlen' : (exitThenInterrupt.map SyncRecordV2.widen).length ≤ 2 ^ 32 := by decide
  have htsc : ∀ r ∈ exitThenInterrupt.map SyncRecordV2.widen, r.tsc ≠ 0 := by decide
  obtain ⟨out, hA, hB⟩ := dumpSyncPoints_formats _ _ exitThenInterrupt_plain
    (ofRecords_rewrites exitThenInterrupt hlen htsc hlen')
    ⟨false, false, 0, 0, fun _ => (7, .INTERRUPT)⟩ ⟨false, false, 0, 0, fun _ => (0, .VMENTER)⟩
  exact ⟨_, _, out, rfl, hA, hB⟩

end RvnSyncPoint
