import RvnSyncPoint.Sync.Blocks
import RvnSyncPoint.Sync.Encode

/-!
# Attached data and the history of reads

The data file has an end-of-file flag of its own, which `next()` looks at before the seek that would
take it back. So once a list of blocks was read across the end of the data file, no data is read any
more. The data of a record is the same after every history of reads exactly when no record's list does
that, or no record has any data (`sameData_iff`).

`Tracked` is what every history keeps in the two good cases: the data file stands open, or it has met
its end and there was no data to lose.
-/

namespace RvnSyncPoint

open LittleEndian Loop StreamableFile

/-- A history of reads, from a loaded reader to the one it leaves: records read by `next()`, or by seeks
to any position whose offset the stream can represent. -/
inductive History (R : Recording) (f₀ : SyncFile) : SyncFile → Prop
  | start : History R f₀ f₀
  | next {f g : SyncFile} (before : History R f₀ f) (h : f.next = some g) : History R f₀ g
  | seek {f g : SyncFile} {q : ℕ} (before : History R f₀ f) (hq : R.offset (q - 1) < 2 ^ 63)
    (h : f.seek q = some g) : History R f₀ g
  | seekFromEnd {f : SyncFile} {p : ℕ} (before : History R f₀ f) (hp : p < R.count) :
    History R f₀ (f.seekFromEnd p)

/-- After every history of reads, the data of a point that was read is what `F` makes of the data offset
of its record. -/
def DataIs (R : Recording) (dc : List UInt8) (F : UInt32 → List SyncPointData) : Prop :=
  ∀ f₀ f, Loaded R (some dc) f₀ → History R f₀ f → f.current.valid = true →
    f.current.data = F (R.record f.position).data_offset

/-- The data of each record ends inside the data file. -/
def Recording.AllTerminated (R : Recording) (dc : List UInt8) : Prop :=
  ∀ k, 1 ≤ k → k ≤ R.count →
    (R.record k).data_offset = 0 ∨ Terminated dc (R.record k).data_offset.toNat

/-- No record has any data. -/
def Recording.NoneHasData (R : Recording) (dc : List UInt8) : Prop :=
  ∀ k, 1 ≤ k → k ≤ R.count →
    (R.record k).data_offset = 0 ∨ leAt dc (R.record k).data_offset.toNat 4 = 0

/-! ## Loading -/

section

variable {R : Recording} {dc : List UInt8} {f g : SyncFile}

/-- `load` reads the magic of the data file. -/
theorem loadData_magic (hmagic : toBytes 8 SYNC_POINT_DATA_MAGIC.toNat <+: dc) (f : SyncFile) :
    f.loadData (some dc) = .returned true { f with data_file := openAt dc 8 } := by
  have hread : extract readUInt64 (openAt dc 0) = (SYNC_POINT_DATA_MAGIC, openAt dc 8) :=
    readUInt64_reads SYNC_POINT_DATA_MAGIC dc 0 hmagic
  simp only [SyncFile.loadData, load_some, openAt_eof, hread]
  rfl

/-- A data file that there is begins with its magic. -/
def HasDataMagic (data : Option (List UInt8)) : Prop :=
  ∀ dc ∈ data, toBytes 8 SYNC_POINT_DATA_MAGIC.toNat <+: dc

theorem Loaded.data_file (hmagic : toBytes 8 SYNC_POINT_DATA_MAGIC.toNat <+: dc)
    (h : Loaded R (some dc) f) : f.data_file = openAt dc 8 := by
  obtain ⟨u, hu⟩ := h
  rw [load_recording, loadData_magic hmagic] at hu
  cases hu
  rfl

theorem Loaded.exists_data (R : Recording) (hmagic : toBytes 8 SYNC_POINT_DATA_MAGIC.toNat <+: dc) :
    ∃ f, Loaded R (some dc) f := by
  have hload := load_recording R (.new ⟨false, false, 0, 0, fun _ => (0, .VMENTER)⟩) (some dc)
  rw [loadData_magic hmagic] at hload
  exact ⟨_, _, hload⟩

/-! ## What every history keeps -/

/-- The data file stands open, or there was no data to lose when its end was met. -/
def DataReady (R : Recording) (dc : List UInt8) (d : StreamableFile) : Prop :=
  (∃ o, d = openAt dc o) ∨ d.eof = true ∧ R.NoneHasData dc

/-- The reader is before a record, or at the end of the file, and what it has read it has the right data
of. -/
structure Tracked (R : Recording) (dc : List UInt8) (f : SyncFile) : Prop extends Attached R f where
  place : f.eof = true ∨ f.file = openAt R.content (R.offset f.position) ∧ f.position < R.count ∨
    ∃ o, f.file = openAt R.content o ∧ R.content.length ≤ o
  data_file : DataReady R dc f.data_file
  current : f.current.valid = true →
    f.current.data = blocksAt dc (R.record f.position).data_offset

/-- Reading the data of a record, in the two good cases. -/
theorem DataReady.dataAt {d : StreamableFile} (h : DataReady R dc d)
    (hgood : R.AllTerminated dc ∨ R.NoneHasData dc) {k : ℕ} (h1 : 1 ≤ k) (hk : k ≤ R.count) :
    (dataAt (R.record k).data_offset d).1 = blocksAt dc (R.record k).data_offset ∧
      DataReady R dc (dataAt (R.record k).data_offset d).2 := by
  rcases h with ⟨o, rfl⟩ | ⟨heof, hnone⟩
  · obtain ⟨hdata, hopen | ⟨hcut, heof⟩⟩ := dataAt_openAt dc (R.record k).data_offset o
    · exact ⟨hdata, .inl hopen.2⟩
    · refine ⟨hdata, .inr ⟨heof, hgood.resolve_left fun hall => ?_⟩⟩
      exact hcut (hall k h1 hk)
  · rw [dataAt_eof heof]
    exact ⟨((blocksAt_eq_nil _).mpr (hnone k h1 hk)).symm, .inr ⟨heof, hnone⟩⟩

/-- A pass of the read loop keeps a reader tracked. -/
theorem Tracked.readPass (hgood : R.AllTerminated dc ∨ R.NoneHasData dc) (h : Tracked R dc f)
    (heof : f.eof = false) (hpass : f.readPass = some g) : Tracked R dc g := by
  rcases h.place with hend | ⟨hfile, hlt⟩ | ⟨o, hfile, hle⟩
  · rw [heof] at hend
    cases hend
  · -- The next record is read, and its data.
    have hreading : Reading R f := ⟨h.toAttached, hfile, hlt.le⟩
    obtain ⟨k, hk, hkreading, hpos, hcur, hdata, -, -⟩ := hreading.readPass_lt hlt
    rw [hpass] at hk
    cases hk
    obtain ⟨hblocks, hready⟩ := h.data_file.dataAt hgood (Nat.le_add_left 1 f.position) hlt
    refine ⟨hkreading.toAttached, .inr ?_, hdata ▸ hready, fun _ => ?_⟩
    · rcases Nat.lt_or_ge g.position R.count with hmore | hlast
      · exact .inl ⟨hkreading.file, hmore⟩
      · refine .inr ⟨_, hkreading.file, ?_⟩
        rw [← R.offset_count]
        exact R.offset_mono hlast
    · rw [hcur, hpos]
      exact hblocks
  · -- No record is left, and the point that is read is not valid.
    have hend := readPass_end hfile h.version hle
    rw [hpass] at hend
    cases hend
    exact ⟨⟨endAt_on _ _, h.version, h.record_size, h.sync_point_count, h.data⟩, .inl rfl,
      h.data_file, fun hvalid => by cases hvalid⟩

/-- So does the read loop, which goes on only before the end of the file. -/
theorem Tracked.skipIdentical (hgood : R.AllTerminated dc ∨ R.NoneHasData dc) (prev : SyncPoint)
    (h : Tracked R dc f) (heof : f.eof = false)
    (hskip : SyncFile.skipIdentical prev f = some g) : Tracked R dc g := by
  refine loop_inv (fun f => Tracked R dc f ∧ f.eof = false) (Tracked R dc) ?_ ?_ f g ⟨h, heof⟩ hskip
  · rintro f g ⟨h, heof⟩ hstep
    obtain ⟨k, hk, hstep⟩ := Option.bind_eq_some_iff.mp hstep
    split_ifs at hstep with hsame
    · cases hstep
      exact ⟨h.readPass hgood heof hk, by simpa using (Bool.and_eq_true_iff.mp hsame).2⟩
    · cases hstep
  · rintro f g ⟨h, heof⟩ hstep
    obtain ⟨k, hk, hstep⟩ := Option.bind_eq_some_iff.mp hstep
    split_ifs at hstep
    · cases hstep
    · cases hstep
      exact h.readPass hgood heof hk

theorem Tracked.next (hgood : R.AllTerminated dc ∨ R.NoneHasData dc) (h : Tracked R dc f)
    (hnext : f.next = some g) : Tracked R dc g := by
  unfold SyncFile.next at hnext
  split_ifs at hnext with heof
  · cases hnext
    exact h
  · obtain ⟨k, hk, rfl⟩ := Option.map_eq_some_iff.mp hnext
    obtain ⟨⟨hon, hversion, hrs, hcount, hd⟩, hplace, hdata, hcur⟩ :=
      h.skipIdentical hgood f.current (Bool.eq_false_of_not_eq_true heof) hk
    rw [SyncFile.dropEvent_eq]
    exact ⟨⟨hon, hversion, hrs, hcount, hd⟩, hplace, hdata, hcur⟩

theorem Tracked.seek (hgood : R.AllTerminated dc ∨ R.NoneHasData dc) (h : Tracked R dc f) {q : ℕ}
    (hq : R.offset (q - 1) < 2 ^ 63) (hseek : f.seek q = some g) : Tracked R dc g := by
  -- At zero there is no current point whose data could be wrong.
  rcases Nat.eq_zero_or_pos q with rfl | hpos
  · obtain ⟨k, hk, hreading, hkpos, hcur, -, -, hdata⟩ := seek_zero h.toAttached
    rw [hseek] at hk
    cases hk
    refine ⟨hreading.toAttached, .inr ?_, hdata ▸ h.data_file, fun hvalid => ?_⟩
    · rcases Nat.eq_zero_or_pos R.count with hnone | hsome
      · refine .inr ⟨_, hreading.file, ?_⟩
        rw [hkpos, ← R.offset_count, hnone]
      · exact .inl ⟨hreading.file, by omega⟩
    · rw [hcur] at hvalid
      cases hvalid
  · -- The seek puts the stream before the record, or past the last one, and calls `next()`.
    have hfile := placed_file h.toAttached hq
    have hplaced : Tracked R dc (f.placed q) := by
      refine ⟨⟨by rw [hfile]; exact openAt_on _ _, h.version, h.record_size, h.sync_point_count,
        h.data⟩, .inr ?_, h.data_file, fun hvalid => by cases hvalid⟩
      rcases Nat.lt_or_ge (q - 1) R.count with hlt | hge
      · exact .inl ⟨hfile, hlt⟩
      · refine .inr ⟨_, hfile, ?_⟩
        rw [← R.offset_count]
        exact R.offset_mono hge
    rw [seek_eq h.toAttached (by omega)] at hseek
    obtain ⟨k, hk, rfl⟩ := Option.map_eq_some_iff.mp hseek
    obtain ⟨⟨hon, hversion, hrs, hcount, hd⟩, hplace, hdata, hcur⟩ := hplaced.next hgood hk
    exact ⟨⟨hon, hversion, hrs, hcount, hd⟩, hplace, hdata, hcur⟩

theorem Tracked.seekFromEnd (h : Tracked R dc f) {p : ℕ} (hp : p < R.count) :
    Tracked R dc (f.seekFromEnd p) := by
  obtain ⟨hreading, hpos, hcur, -, -, hdata⟩ := seekFromEnd_reading h.toAttached hp
  refine ⟨hreading.toAttached, .inr (.inl ⟨hreading.file, by omega⟩), hdata ▸ h.data_file,
    fun hvalid => ?_⟩
  rw [hcur] at hvalid
  cases hvalid

/-- Every history keeps a reader tracked. -/
theorem History.tracked (hgood : R.AllTerminated dc ∨ R.NoneHasData dc) {f₀ : SyncFile}
    (h₀ : Tracked R dc f₀) (h : History R f₀ f) : Tracked R dc f := by
  induction h with
  | start => exact h₀
  | next before h ih => exact ih.next hgood h
  | seek before hq h ih => exact ih.seek hgood hq h
  | seekFromEnd before hp ih => exact ih.seekFromEnd hp

theorem Loaded.tracked (hmagic : toBytes 8 SYNC_POINT_DATA_MAGIC.toNat <+: dc)
    (h : Loaded R (some dc) f) : Tracked R dc f := by
  obtain ⟨hpos, hcur, -, -⟩ := h.fields
  have hreading := h.reading
  refine ⟨hreading.toAttached, .inr ?_, .inl ⟨8, h.data_file hmagic⟩, fun hvalid => ?_⟩
  · rcases Nat.eq_zero_or_pos R.count with hnone | hsome
    · refine .inr ⟨_, hreading.file, ?_⟩
      rw [hpos, ← R.offset_count, hnone]
    · exact .inl ⟨hreading.file, by omega⟩
  · rw [hcur] at hvalid
    cases hvalid

/-! ## The histories that lose data -/

/-- A record with data, and one whose data does not end inside the file: reading the first, the second
and the first again gives its data once only. -/
theorem not_dataIs (hmagic : toBytes 8 SYNC_POINT_DATA_MAGIC.toNat <+: dc) {j k : ℕ}
    (hj1 : 1 ≤ j) (hj : j ≤ R.count)
    (hcut : ¬ ((R.record j).data_offset = 0 ∨ Terminated dc (R.record j).data_offset.toNat))
    (hk1 : 1 ≤ k) (hk : k ≤ R.count)
    (hdata : ¬ ((R.record k).data_offset = 0 ∨ leAt dc (R.record k).data_offset.toNat 4 = 0))
    (F : UInt32 → List SyncPointData) : ¬ DataIs R dc F := by
  intro hF
  obtain ⟨f, hf⟩ := Loaded.exists_data R hmagic
  have hoff {q : ℕ} (hq : q ≤ R.count) : R.offset (q - 1) < 2 ^ 63 := R.offset_lt (by omega)
  have hvalid {q : ℕ} (h1 : 1 ≤ q) (hq : q ≤ R.count) {c : SyncPoint} {data : List SyncPointData}
      (hc : c = (R.record q).point {} data) : c.valid = true :=
    Recording.IsPoint.valid ⟨h1, hq, _, _, hc⟩
  -- First the record `k`, whose data is read.
  obtain ⟨f₁, hseek₁, hf₁, hpos₁, hcur₁, hd₁, -, -⟩ := seek_record hf.reading.toAttached hk1 hk
  rw [hf.data_file hmagic] at hcur₁ hd₁
  obtain ⟨hblocks, hafter⟩ := dataAt_openAt dc (R.record k).data_offset 8
  have hist₁ : History R f f₁ := .seek .start (hoff hk) hseek₁
  have hread₁ := hF f f₁ hf hist₁ (hvalid hk1 hk hcur₁)
  -- Then the record `j`, after which the data file has met its end.
  obtain ⟨f₂, hseek₂, hf₂, -, -, hd₂, -, -⟩ := seek_record hf₁.toAttached hj1 hj
  have heof : f₂.data_file.eof = true := by
    rw [hd₂, hd₁]
    rcases hafter with ⟨-, o, hopen⟩ | ⟨-, heof⟩
    · rw [hopen]
      rcases (dataAt_openAt dc (R.record j).data_offset o).2 with ⟨hgood, -⟩ | ⟨-, heof⟩
      · exact absurd hgood hcut
      · exact heof
    · rw [dataAt_eof heof]
      exact heof
  -- Then the record `k` again.
  obtain ⟨f₃, hseek₃, -, hpos₃, hcur₃, -, -, -⟩ := seek_record hf₂.toAttached hk1 hk
  rw [dataAt_eof heof] at hcur₃
  have hist₃ : History R f f₃ := .seek (.seek hist₁ (hoff hj) hseek₂) (hoff hk) hseek₃
  have hread₃ := hF f f₃ hf hist₃ (hvalid hk1 hk hcur₃)
  rw [hpos₁, hcur₁] at hread₁
  rw [hpos₃, hcur₃, ← hread₁] at hread₃
  apply hdata
  rw [← blocksAt_eq_nil, ← hblocks]
  exact hread₃.symm

/-- The data of a record is the same after every history of reads, and then it is that of its offset in
the data file, exactly when the data of each record ends inside the file, or no record has any. -/
theorem sameData_iff (R : Recording) (dc : List UInt8)
    (hmagic : toBytes 8 SYNC_POINT_DATA_MAGIC.toNat <+: dc) :
    ((∃ F, DataIs R dc F) ↔ R.AllTerminated dc ∨ R.NoneHasData dc) ∧
      ((∃ F, DataIs R dc F) → DataIs R dc (blocksAt dc)) := by
  have hsame : R.AllTerminated dc ∨ R.NoneHasData dc → DataIs R dc (blocksAt dc) := by
    intro hgood f₀ f hf₀ hist hvalid
    exact (hist.tracked hgood (hf₀.tracked hmagic)).current hvalid
  have hgood : (∃ F, DataIs R dc F) → R.AllTerminated dc ∨ R.NoneHasData dc := by
    rintro ⟨F, hF⟩
    by_contra hbad
    obtain ⟨hall, hnone⟩ := not_or.mp hbad
    unfold Recording.AllTerminated at hall
    unfold Recording.NoneHasData at hnone
    push Not at hall hnone
    obtain ⟨j, hj1, hj, hcut⟩ := hall
    obtain ⟨k, hk1, hk, hdata⟩ := hnone
    exact not_dataIs hmagic hj1 hj (not_or.mpr hcut) hk1 hk (not_or.mpr hdata) F hF
  exact ⟨⟨hgood, fun h => ⟨_, hsame h⟩⟩, fun h => hsame (hgood h)⟩

end

/-- A recording of one record, whose data begins right after the magic of the data file. -/
def oneDataRecord : Recording :=
  .ofRecords [{ SyncRecord.simple 0xff 1 0 0 with data_offset := 8 }] (by decide) (by decide)

/-- The data file with the given bytes after the magic. -/
def dataFile (bs : List UInt8) : List UInt8 := toBytes 8 SYNC_POINT_DATA_MAGIC.toNat ++ bs

theorem oneDataRecord_record : (oneDataRecord.record 1).data_offset = 8 := by
  rw [oneDataRecord, Recording.ofRecords_record (i := 0) (by decide)]
  rfl

theorem leAt_dataFile (bs : List UInt8) (o k : ℕ) : leAt (dataFile bs) (8 + o) k = leAt bs o k := by
  have hskip := leAt_append_right (toBytes 8 SYNC_POINT_DATA_MAGIC.toNat) bs o k
  rw [length_toBytes] at hskip
  exact hskip

theorem length_dataFile (bs : List UInt8) : (dataFile bs).length = 8 + bs.length := by
  rw [dataFile, List.length_append, length_toBytes]

/-- With an end marker there, its data is always the same. -/
theorem sameData_marker :
    DataIs oneDataRecord (dataFile [0, 0, 0, 0]) (blocksAt (dataFile [0, 0, 0, 0])) := by
  have h := sameData_iff oneDataRecord (dataFile [0, 0, 0, 0]) (List.prefix_append _ _)
  refine h.2 (h.1.mpr (.inr fun k h1 hk => .inr ?_))
  obtain rfl : k = 1 := Nat.le_antisymm hk h1
  rw [oneDataRecord_record]
  exact leAt_dataFile _ 0 4

/-- With a block there that is cut after its type, its data is read only once. -/
theorem not_sameData : ¬ ∀ (R : Recording) (dc : List UInt8),
    toBytes 8 SYNC_POINT_DATA_MAGIC.toNat <+: dc → ∃ F, DataIs R dc F := by
  intro halways
  obtain ⟨F, hF⟩ := halways oneDataRecord (dataFile [1, 0, 0, 0]) (List.prefix_append _ _)
  have htype : leAt (dataFile [1, 0, 0, 0]) 8 4 ≠ 0 := by
    rw [leAt_dataFile _ 0 4]
    decide
  have hcut : ¬ Terminated (dataFile [1, 0, 0, 0]) 8 := by
    rw [terminated_iff_of_block htype, length_dataFile]
    rintro ⟨hle, -⟩
    simp only [List.length_cons, List.length_nil] at hle
    omega
  refine not_dataIs (j := 1) (k := 1) (List.prefix_append _ _) le_rfl le_rfl ?_ le_rfl le_rfl ?_ F hF
  · rw [oneDataRecord_record]
    exact not_or.mpr ⟨by decide, hcut⟩
  · rw [oneDataRecord_record]
    exact not_or.mpr ⟨by decide, htype⟩

end RvnSyncPoint
