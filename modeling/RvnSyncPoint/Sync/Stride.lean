import RvnSyncPoint.Sync.Closed
import RvnSyncPoint.Sync.DataLoop
import RvnSyncPoint.Sync.Kept
import RvnSyncPoint.Sync.Opened
import RvnSyncPoint.Sync.RecordV2

/-!
# The stride of the reader

A pass of the read loop extracts the fields of a record, and in version 3 as many bytes of padding as
the record size has more than the fields, in unsigned arithmetic. `seek` takes the record size for the
distance of two records. The two agree for the files of version 3 with records of at least 201 bytes and
those of a version below 3 with records of 80, and in a file that is too short for a pass that begins
after the header there is nothing to disagree about (`stridesByRecord_iff`).
-/

namespace RvnSyncPoint

open LittleEndian Loop StreamableFile

/-- The bytes that a pass of the read loop asks for. -/
def passBytes (version record_size : UInt32) : ℕ :=
  if version < 3 then 80 else 201 + (record_size - 201).toNat

/-- `load` of the sync file `c` has left the reader `g`. -/
def Loads (c : List UInt8) (g : SyncFile) : Prop :=
  ∃ f data, SyncFile.load (some c) data f = .returned true g

/-- The states of a reader that is `g` at first, in which the read loop may begin a pass: those that
`next()` and `seek` leave, and those inside them. A position that is sought is one whose offset the
stream can represent and does not wrap around. So no pass begins inside the header, which it may after
`seek_from_end` or where the offset wraps around. -/
inductive Visits (g : SyncFile) : SyncFile → Prop
  | start : Visits g g
  | pass {f h : SyncFile} (hf : Visits g f) (heof : f.eof = false) (hpass : f.readPass = some h) :
    Visits g h
  | next {f h : SyncFile} (hf : Visits g f) (hnext : f.next = some h) : Visits g h
  | placed {f : SyncFile} {k : ℕ} (hf : Visits g f) (h0 : k ≠ 0)
    (hk : HEADER_SIZE + f.record_size.toNat * (k - 1) < 2 ^ 63) : Visits g (f.placed k)
  | seek {f h : SyncFile} {k : ℕ} (hf : Visits g f)
    (hk : HEADER_SIZE + f.record_size.toNat * (k - 1) < 2 ^ 63) (hseek : f.seek k = some h) :
    Visits g h

/-- The reader `g` has read `k` records one after the other, and is then `f`. Between two calls of
`next()` the current event is forgotten. -/
inductive Sequential (g : SyncFile) : ℕ → SyncFile → Prop
  | zero : Sequential g 0 g
  | pass {k : ℕ} {f h : SyncFile} (hf : Sequential g k f) (hpass : f.readPass = some h)
    (heof : h.eof = false) : Sequential g (k + 1) h
  | drop {k : ℕ} {f : SyncFile} (hf : Sequential g k f) : Sequential g k f.dropEvent

/-- One record read is one record stride. -/
structure StridesByRecord (c : List UInt8) : Prop where
  /-- A pass that does not meet the end of the file advances its offset by the record size. -/
  stride : ∀ g f h, Loads c g → Visits g f → f.eof = false → f.readPass = some h → h.eof = false →
    h.file.pos = f.file.pos + (headerRecordSize c).toNat
  /-- The next record in sequence is read at the offset that seeking to it reads at. -/
  same : ∀ g k f h, Loads c g → Sequential g k f → f.readPass = some h → h.eof = false →
    (f.placed (k + 1)).file.pos = f.file.pos

/-! ## One pass -/

/-- The extractions of a record of a version below 3 ask for 80 bytes. -/
theorem readRecordV2_asks (uninitialised : UInt8 × SyncPointType) :
    Asks (readRecordV2 uninitialised) 80 := by
  unfold readRecordV2
  refine readUInt64_asks.first (by decide) fun _ => ?_
  iterate 2 refine readUInt16_asks.first (by decide) fun _ => ?_
  iterate 15 refine readUInt32_asks.first (by decide) fun _ => ?_
  iterate 2 refine readUInt16_asks.first (by decide) fun _ => ?_
  refine readUInt8_asks.first (by decide) fun _ => ?_
  refine readUInt16_asks.first (by decide) fun _ => ?_
  refine readUInt8_asks.first (by decide) fun _ => ?_
  exact Asks.pure _

section

variable {c : List UInt8} {f g h : SyncFile} {o : ℕ}

/-- What the extraction of a point asks for, at an offset that may be beyond the end of the file. -/
theorem readPoint_after (hfile : f.file = openAt c o) :
    After c (o + passBytes f.version f.record_size) f.readPoint.2.file := by
  unfold SyncFile.readPoint passBytes
  rw [hfile]
  split_ifs with hv
  · show After c (o + 80) (extract (readRecordV2 (f.stack 0)) (openAt c o)).2
    rcases Nat.lt_or_ge c.length o with hlt | hle
    · rw [readRecordV2_end hlt.le]
      exact .inr ⟨⟨o, rfl⟩, by omega⟩
    · exact readRecordV2_asks _ _ _ _ (.inl ⟨rfl, hle⟩)
  · show After c (o + (201 + (f.record_size - 201).toNat))
      (extract (skipPadding (f.record_size - 201).toNat) (extract readRecordV3 (openAt c o)).2).2
    have hrecord : After c (o + 201) (extract readRecordV3 (openAt c o)).2 := by
      rcases Nat.lt_or_ge c.length o with hlt | hle
      · rw [readRecordV3_end hlt.le]
        exact .inr ⟨⟨o, rfl⟩, by omega⟩
      · exact readRecordV3_asks _ _ _ (.inl ⟨rfl, hle⟩)
    rw [← Nat.add_assoc]
    exact skipPadding_asks _ _ _ _ hrecord

/-! ## Readers among the records -/

/-- The reader has the sync file `c` open, and unless it has met the end, it is not in the header. -/
structure InRecords (c : List UInt8) (f : SyncFile) : Prop where
  on : On c f.file
  version : f.version = headerVersion c
  record_size : f.record_size = headerRecordSize c
  offset : f.eof = false → ∃ o, HEADER_SIZE ≤ o ∧ f.file = openAt c o

/-- A pass meets the end of the file, or advances by the bytes that it asks for. -/
theorem InRecords.readPass (hf : InRecords c f) (heof : f.eof = false) (hpass : f.readPass = some h) :
    InRecords c h ∧ (h.eof = false → ∃ o, HEADER_SIZE ≤ o ∧ f.file = openAt c o ∧
      h.file = openAt c (o + passBytes (headerVersion c) (headerRecordSize c)) ∧
      o + passBytes (headerVersion c) (headerRecordSize c) ≤ c.length) := by
  obtain ⟨o, ho, hfile⟩ := hf.offset heof
  have hafter := readPoint_after hfile
  obtain ⟨hhfile, hversion, hrs, -⟩ := readPass_frame hpass
  rw [← hhfile, hf.version, hf.record_size] at hafter
  rcases hafter with ⟨hopen, hle⟩ | ⟨⟨e, hend⟩, -⟩
  · refine ⟨⟨hopen ▸ openAt_on c _, hversion.trans hf.version, hrs.trans hf.record_size, fun _ =>
      ⟨_, by omega, hopen⟩⟩, fun _ => ⟨o, ho, hfile, hopen, hle⟩⟩
  · have hheof : h.eof = true := by
      rw [SyncFile.eof, hend]
      rfl
    exact ⟨⟨hend ▸ endAt_on c e, hversion.trans hf.version, hrs.trans hf.record_size, by simp [hheof]⟩,
      by simp [hheof]⟩

theorem InRecords.dropEvent (hf : InRecords c f) : InRecords c f.dropEvent := by
  rw [SyncFile.dropEvent_eq]
  exact ⟨hf.on, hf.version, hf.record_size, hf.offset⟩

theorem InRecords.next (hf : InRecords c f) (hnext : f.next = some h) : InRecords c h :=
  keptByNext_of_readPass (fun _ _ hs heof hpass => (hs.readPass heof hpass).1)
    (fun _ hs => hs.dropEvent) f h hf hnext

theorem InRecords.placed (hf : InRecords c f) {k : ℕ}
    (hk : HEADER_SIZE + f.record_size.toNat * (k - 1) < 2 ^ 63) : InRecords c (f.placed k) := by
  have hfile : (f.placed k).file = openAt c (HEADER_SIZE + f.record_size.toNat * (k - 1)) := by
    rw [SyncFile.placed, Nat.mod_eq_of_lt (lt_trans hk (by norm_num))]
    exact hf.on.seek hk
  exact ⟨hfile ▸ openAt_on c _, hf.version, hf.record_size, fun _ => ⟨_, Nat.le_add_right _ _, hfile⟩⟩

theorem InRecords.seek (hf : InRecords c f) (hrs : headerRecordSize c ≠ 0) {k : ℕ}
    (hk : HEADER_SIZE + f.record_size.toNat * (k - 1) < 2 ^ 63) (hseek : f.seek k = some h) :
    InRecords c h := by
  have hne : f.record_size ≠ 0 := hf.record_size ▸ hrs
  by_cases h0 : k = 0
  · rw [SyncFile.seek, if_neg hne, if_pos h0] at hseek
    cases hseek
    have hfile : f.file.seek HEADER_SIZE = openAt c HEADER_SIZE := hf.on.seek (by decide)
    exact ⟨hf.on.seek_on _, hf.version, hf.record_size, fun _ => ⟨_, le_rfl, hfile⟩⟩
  · rw [seek_placed hne h0] at hseek
    obtain ⟨k', hnext, rfl⟩ := Option.map_eq_some_iff.mp hseek
    obtain ⟨hon, hversion, hrs, hoffset⟩ := (hf.placed hk).next hnext
    exact ⟨hon, hversion, hrs, hoffset⟩

theorem Loads.file (hg : Loads c g) : InRecords c g ∧ g.file = openAt c HEADER_SIZE := by
  obtain ⟨f, data, hload⟩ := hg
  obtain ⟨hheader, hrs⟩ := header_of_load hload
  have hopen : ∀ g : SyncFile, g.file = openAt c HEADER_SIZE → g.version = headerVersion c →
      g.record_size = headerRecordSize c → InRecords c g ∧ g.file = openAt c HEADER_SIZE :=
    fun g hfile hv hr => ⟨⟨hfile ▸ openAt_on c _, hv, hr, fun _ => ⟨_, le_rfl, hfile⟩⟩, hfile⟩
  rw [load_of_header hheader, if_neg hrs] at hload
  split_ifs at hload
  · cases hload
    exact hopen _ rfl rfl rfl
  · obtain ⟨-, -, hg⟩ := loadData_returned hload
    rw [hg]
    exact hopen _ rfl rfl rfl

theorem Visits.inRecords (hf : Visits g f) (hg : InRecords c g) (hrs : headerRecordSize c ≠ 0) :
    InRecords c f := by
  induction hf with
  | start => exact hg
  | pass _ heof hpass ih => exact (ih.readPass heof hpass).1
  | next _ hnext ih => exact ih.next hnext
  | placed _ _ hk ih => exact ih.placed hk
  | seek _ hk hseek ih => exact ih.seek hrs hk hseek

/-- The offset after `k` records in sequence. -/
theorem Sequential.offset {k : ℕ} (hf : Sequential g k f) (hg : Loads c g) :
    InRecords c f ∧ f.file =
      openAt c (HEADER_SIZE + passBytes (headerVersion c) (headerRecordSize c) * k) := by
  induction hf with
  | zero => exact hg.file
  | @pass k f h hf hpass heof ih =>
    obtain ⟨hin, hfile⟩ := ih
    obtain ⟨hin', hadvance⟩ := hin.readPass (by rw [SyncFile.eof, hfile]; rfl) hpass
    obtain ⟨o, -, hfile', hopen, -⟩ := hadvance heof
    rw [hfile] at hfile'
    cases hfile'
    refine ⟨hin', ?_⟩
    rw [hopen, Nat.mul_succ, Nat.add_assoc]
  | drop hf ih =>
    refine ⟨ih.1.dropEvent, ?_⟩
    rw [SyncFile.dropEvent_eq]
    exact ih.2

end

/-! ## The files that are read so -/

/-- A pass asks for a record in the formats whose record size is that of the fields, or more of
version 3. -/
theorem passBytes_eq_iff (version rs : UInt32) :
    passBytes version rs = rs.toNat ↔ if version < 3 then rs = 80 else 201 ≤ rs.toNat := by
  unfold passBytes
  split_ifs with hv
  · rw [← UInt32.toNat_inj]
    exact eq_comm
  · have hlt := rs.toNat_lt
    rw [UInt32.toNat_sub]
    have h201 : (201 : UInt32).toNat = 201 := rfl
    rw [h201]
    omega

section

variable {c : List UInt8} {f h : SyncFile}

/-- A pass advances by the bytes that it asks for. -/
theorem InRecords.stride (hf : InRecords c f) (hsize : c.length < 2 ^ 63) (heof : f.eof = false)
    (hpass : f.readPass = some h) (hheof : h.eof = false) :
    h.file.pos = f.file.pos + passBytes (headerVersion c) (headerRecordSize c) ∧
      HEADER_SIZE + passBytes (headerVersion c) (headerRecordSize c) ≤ c.length := by
  obtain ⟨-, hadvance⟩ := hf.readPass heof hpass
  obtain ⟨o, ho, hfile, hopen, hle⟩ := hadvance hheof
  rw [hopen, hfile, openAt_pos (by omega), openAt_pos (by omega)]
  exact ⟨rfl, by omega⟩

/-- A file that `load` accepts, when it has a whole record, is read by a first pass. -/
theorem exists_first_pass (hheader : SyncHeader c) (hrs : headerRecordSize c ≠ 0)
    (hlong : HEADER_SIZE + passBytes (headerVersion c) (headerRecordSize c) ≤ c.length) :
    ∃ g h, Loads c g ∧ g.eof = false ∧ g.readPass = some h ∧ h.eof = false := by
  obtain ⟨g, hload, hdata⟩ : ∃ g, newReader.load (some c) none = .returned true g ∧
      g.data_file.eof = true := by
    rw [load_of_header hheader, if_neg hrs]
    split_ifs
    · exact ⟨_, rfl, rfl⟩
    · unfold SyncFile.loadData
      rw [if_pos (load_none_eof _)]
      exact ⟨_, rfl, rfl⟩
  have hg : Loads c g := ⟨newReader, none, hload⟩
  obtain ⟨hin, hfile⟩ := hg.file
  have hread : readData g.readPoint.1.2 g.data_file = some ([], g.data_file) := by
    simp [readData, hdata]
  obtain ⟨h, hpass, -⟩ := readPass_data hread
  -- The pass has what it asks for, so it does not meet the end.
  have hafter := readPoint_after hfile
  obtain ⟨hhfile, -⟩ := readPass_frame hpass
  rw [← hhfile, hin.version, hin.record_size] at hafter
  refine ⟨g, h, hg, by rw [SyncFile.eof, hfile]; rfl, hpass, ?_⟩
  rcases hafter with ⟨hopen, -⟩ | ⟨-, hlt⟩
  · rw [SyncFile.eof, hopen]
    rfl
  · omega

/-- The files that are read by strides of the record size: those with the records that a pass asks for,
and those that are too short for a pass. -/
theorem stridesByRecord_iff (c : List UInt8) (hheader : SyncHeader c) (hrs : headerRecordSize c ≠ 0)
    (hsize : c.length < 2 ^ 63) : StridesByRecord c ↔
      (if headerVersion c < 3 then headerRecordSize c = 80 else 201 ≤ (headerRecordSize c).toNat) ∨
        c.length < HEADER_SIZE + passBytes (headerVersion c) (headerRecordSize c) := by
  rw [← passBytes_eq_iff]
  constructor
  · intro hstrides
    refine or_iff_not_imp_right.mpr fun hlong => ?_
    -- The first record is there, and reading it advances by the bytes of a pass.
    obtain ⟨g, h, hg, heof, hpass, hheof⟩ := exists_first_pass hheader hrs (not_lt.mp hlong)
    have hpos := hstrides.stride g g h hg .start heof hpass hheof
    rw [(hg.file.1.stride hsize heof hpass hheof).1] at hpos
    exact Nat.add_left_cancel hpos
  · intro hor
    constructor
    · intro g f h hg hf heof hpass hheof
      obtain ⟨hpos, hle⟩ := (hf.inRecords hg.file.1 hrs).stride hsize heof hpass hheof
      rcases hor with heq | hshort
      · rw [hpos, heq]
      · omega
    · intro g k f h hg hf hpass hheof
      obtain ⟨hin, hfile⟩ := hf.offset hg
      obtain ⟨-, hadvance⟩ := hin.readPass (by rw [SyncFile.eof, hfile]; rfl) hpass
      obtain ⟨o, ho, hfile', -, hle⟩ := hadvance hheof
      rcases hor with heq | hshort
      · rw [hfile] at hfile'
        cases hfile'
        rw [heq] at hfile hle
        have hplaced : (f.placed (k + 1)).file = f.file := by
          rw [SyncFile.placed, hin.record_size, Nat.add_sub_cancel,
            Nat.mod_eq_of_lt (by omega : _ < 2 ^ 64), hfile]
          exact (openAt_on _ _).seek (by omega)
        rw [hplaced]
      · omega

end

/-- A version-3 file with records of 201 bytes. -/
theorem stridesByRecord_201 : StridesByRecord (bareHeader 3 201 ++ List.replicate 1205 0) :=
  (stridesByRecord_iff _ (syncHeader_bareHeader 3 201 _ (by decide))
    (by rw [headerRecordSize_bareHeader]; decide)
    (by rw [List.length_append, length_bareHeader, List.length_replicate]; norm_num)).mpr
    (.inl (by rw [headerVersion_bareHeader, headerRecordSize_bareHeader]; decide))

/-- A version-2 file with records of 96 bytes, of which a pass reads 80. -/
theorem not_stridesByRecord : ¬ StridesByRecord (bareHeader 2 96 ++ List.replicate 1100 0) := by
  rw [stridesByRecord_iff _ (syncHeader_bareHeader 2 96 _ (by decide))
    (by rw [headerRecordSize_bareHeader]; decide)
    (by rw [List.length_append, length_bareHeader, List.length_replicate]; norm_num),
    headerVersion_bareHeader, headerRecordSize_bareHeader, List.length_append, length_bareHeader,
    List.length_replicate]
  rintro (h | h)
  · exact absurd h (by decide)
  · exact absurd h (by decide)

end RvnSyncPoint
