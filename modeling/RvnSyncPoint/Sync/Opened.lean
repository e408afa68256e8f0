import RvnSyncPoint.Extraction
import RvnSyncPoint.Sync.Load

/-!
# Version-3 files of any content

A reader is `Opened` on the bytes `c` when it has a version-3 file open whose records are of at least
201 bytes. The file may end anywhere, and its records may hold anything. A pass of the read loop reads
a whole record, or meets the end of the file in a cut one (`Opened.readPass_whole`,
`Opened.readPass_cut`); so `next()` ends from every reader that no seek made fail
(`Opened.next_total`).
-/

namespace RvnSyncPoint

open LittleEndian Loop StreamableFile

/-- The reader has the version-3 file with the bytes `c` open, in records of `rs` bytes. -/
structure Opened (c : List UInt8) (rs : UInt32) (f : SyncFile) : Prop where
  on : On c f.file
  version : f.version = 3
  record_size : f.record_size = rs
  le_record_size : 201 ≤ rs.toNat
  data : ∃ dc, Healthy dc f.data_file

/-- A new reader on which `load` accepted a version-3 file with the bytes `c`. -/
structure Accepts (c : List UInt8) (data : Option (List UInt8)) (f : SyncFile) : Prop where
  load : ∃ u, (SyncFile.new u).load (some c) data = .returned true f
  version : f.version = 3
  le_record_size : 201 ≤ f.record_size.toNat

/-- The extractions of a version-3 record ask for 201 bytes. -/
theorem readRecordV3_asks : Asks readRecordV3 201 := by
  unfold readRecordV3
  refine readUInt64_asks.first (by decide) fun _ => ?_
  iterate 2 refine readUInt16_asks.first (by decide) fun _ => ?_
  iterate 22 refine readUInt64_asks.first (by decide) fun _ => ?_
  refine readUInt32_asks.first (by decide) fun _ => ?_
  iterate 2 refine readUInt16_asks.first (by decide) fun _ => ?_
  refine readUInt8_asks.first (by decide) fun _ => ?_
  refine readUInt32_asks.first (by decide) fun _ => ?_
  exact Asks.pure _

theorem skipPadding_asks (n : ℕ) : Asks (skipPadding n) n := by
  induction n with
  | zero => exact Asks.pure ()
  | succ n ih => exact readUInt8_asks.first (by omega) fun _ => ih

/-- The timestamp is the first field of a record, with zeros for what the end of the file cuts of
it. -/
theorem readRecordV3_tsc (c : List UInt8) (o : ℕ) :
    (extract readRecordV3 (openAt c o)).1.tsc = .ofNat (leAt c o 8) := readUInt64_value c o

section

variable {c : List UInt8} {rs : UInt32} {f g : SyncFile} {o : ℕ}

/-- Records are not empty. -/
theorem Opened.record_size_ne (h : Opened c rs f) : ¬ f.record_size = 0 := by
  intro h0
  have hle := h.le_record_size
  rw [← h.record_size, h0] at hle
  exact absurd hle (by decide)

/-- A pass of the read loop on a whole record. -/
theorem Opened.readPass_whole (h : Opened c rs f) (hfile : f.file = openAt c o)
    (hle : o + rs.toNat ≤ c.length) :
    ∃ g data, f.readPass = some g ∧ Opened c rs g ∧ g.file = openAt c (o + rs.toNat) ∧
      g.current = (recordAt c o).point f.current data := by
  obtain ⟨dc, hd⟩ := h.data
  have hrs := h.record_size
  subst hrs
  exact ⟨_, _, readPass_openAt hfile h.version h.le_record_size hle hd,
    ⟨openAt_on _ _, h.version, rfl, h.le_record_size, dc, dataAt_healthy hd _⟩, rfl, rfl⟩

/-- A pass of the read loop on a record that the end of the file cuts, which meets the end. -/
theorem Opened.readPass_cut (h : Opened c rs f) (hfile : f.file = openAt c o)
    (hlt : c.length < o + rs.toNat) :
    ∃ g, f.readPass = some g ∧ Opened c rs g ∧ g.eof = true ∧
      g.current.tsc = .ofNat (leAt c o 8) := by
  obtain ⟨hon, hversion, hrs, hle, dc, hd⟩ := h
  subst hrs
  rcases Nat.lt_or_ge o c.length with ho | ho
  · -- The file ends inside the record.
    have hpad : (f.record_size - 201).toNat = f.record_size.toNat - 201 := by
      rw [UInt32.toNat_sub_of_le _ _ (by rw [UInt32.le_iff_toNat_le]; exact hle)]
      rfl
    have hrecord := readRecordV3_asks c o _ (.inl ⟨rfl, ho.le⟩)
    have hend := (skipPadding_asks (f.record_size - 201).toNat c _ _ hrecord).eof (by omega)
    have hkeeps := skipPadding_keepsOpen (f.record_size - 201).toNat _ _
      (readRecordV3_keepsOpen _ _ hon)
    have hnot : ¬ f.version < 3 := by rw [hversion]; decide
    rw [hfile] at hkeeps
    unfold SyncFile.readPass SyncFile.readPoint
    simp only [hnot, if_false, hfile, readData_eq hd, Option.bind_eq_bind, Option.bind_some]
    refine ⟨_, rfl, ?_⟩
    split_ifs with hmore
    · refine ⟨⟨hkeeps, hversion, rfl, hle, dc, dataAt_healthy hd _⟩, hend, ?_⟩
      rw [← readRecordV3_tsc c o]
      exact SyncRecord.point_tsc _ _ _
    · exact (hmore hend).elim
  · -- The file has ended before the record.
    refine ⟨_, readPass_end hfile hversion ho, ⟨endAt_on _ _, hversion, rfl, hle, dc, hd⟩, rfl, ?_⟩
    rw [leAt, List.drop_eq_nil_of_le ho]
    rfl

/-! ## The read loop -/

theorem Opened.dropEvent (h : Opened c rs f) : Opened c rs f.dropEvent := by
  rw [SyncFile.dropEvent_eq]
  exact ⟨h.on, h.version, h.record_size, h.le_record_size, h.data⟩

/-- The read loop ends from every offset: it leaves at the latest in a cut record, and every pass over
a whole one leaves less to read. -/
theorem Opened.skipIdentical_total (h : Opened c rs f) (hfile : f.file = openAt c o)
    (prev : SyncPoint) :
    ∃ g, SyncFile.skipIdentical prev f = some g ∧ Opened c rs g ∧ Healthy c g.file := by
  refine loop_total (fun f => Opened c rs f ∧ ∃ o, f.file = openAt c o) (fun f => remaining f.file)
    (fun g => Opened c rs g ∧ Healthy c g.file) ?_ f ⟨h, o, hfile⟩
  rintro f ⟨h, o, hfile⟩
  rcases Nat.lt_or_ge c.length (o + rs.toNat) with hlt | hle
  · obtain ⟨g, hpass, hg, heof, -⟩ := h.readPass_cut hfile hlt
    exact .inl ⟨g, by simp [hpass, heof], hg, .inl heof⟩
  · obtain ⟨g, data, hpass, hg, hgfile, -⟩ := h.readPass_whole hfile hle
    have heof : g.eof = false := by
      rw [SyncFile.eof, hgfile]
      rfl
    by_cases hsame : prev.operatorEq g.current = true
    · refine .inr ⟨g, by simp [hpass, heof, hsame], ⟨hg, _, hgfile⟩, ?_⟩
      have hpos := h.le_record_size
      rw [hgfile, hfile, remaining_openAt, remaining_openAt]
      omega
    · exact .inl ⟨g, by simp [hpass, hsame], hg, .inr ⟨_, hgfile⟩⟩

/-- `next()` ends from every reader that no seek made fail, and makes none fail. -/
theorem Opened.next_total (h : Opened c rs f) (hf : Healthy c f.file) :
    ∃ g, f.next = some g ∧ Opened c rs g ∧ Healthy c g.file := by
  rcases hf with heof | ⟨o, hfile⟩
  · exact ⟨f, by rw [SyncFile.next, SyncFile.eof, if_pos heof], h, .inl heof⟩
  · obtain ⟨g, hskip, hg, hhealthy⟩ := h.skipIdentical_total hfile f.current
    have heof : f.eof = false := by rw [SyncFile.eof, hfile]; rfl
    refine ⟨g.dropEvent, by simp [SyncFile.next, heof, hskip], hg.dropEvent, ?_⟩
    rw [SyncFile.dropEvent_eq]
    exact hhealthy

/-! ## Loading -/

/-- A reader that `load` has accepted a file in is at the first record, and has everything else at its
default. -/
theorem Accepts.opened {data : Option (List UInt8)} (h : Accepts c data f) :
    Opened c f.record_size f ∧ f.file = openAt c HEADER_SIZE ∧ f.current = {} ∧
      f.current_event = {} := by
  obtain ⟨⟨u, hload⟩, hversion, hrs⟩ := h
  obtain ⟨hheader, hrs0⟩ := header_of_load hload
  rw [load_of_header hheader, if_neg hrs0] at hload
  split_ifs at hload with hv
  · cases hload
    exact absurd (hversion.symm.trans hv) (by decide)
  · obtain ⟨-, hdata, hf⟩ := loadData_returned hload
    have hopen : f.file = openAt c HEADER_SIZE := congrArg SyncFile.file hf
    exact ⟨⟨hopen ▸ openAt_on c _, hversion, rfl, hrs, _, hdata⟩, hopen,
      congrArg SyncFile.current hf, congrArg SyncFile.current_event hf⟩

/-- `load` accepts a file whose header says that it is one of version 3. -/
theorem exists_accepts (hlen : 20 ≤ c.length) (hmagic : leAt c 0 8 = SYNC_POINT_MAGIC.toNat)
    (hversion : leAt c 8 4 = 3) (hrs : leAt c 16 4 = rs.toNat) (hle : 201 ≤ rs.toNat) :
    ∃ f, Accepts c none f ∧ f.record_size = rs := by
  have hne : rs ≠ 0 := by
    rintro rfl
    exact absurd hle (by decide)
  have hload := load_header (.new ⟨false, false, 0, 0, fun _ => (0, .VMENTER)⟩) none hlen hmagic
    (show leAt c 8 4 = (3 : UInt32).toNat from hversion) hrs (by decide) (by decide) hne
  unfold SyncFile.loadData at hload
  rw [if_pos (load_none_eof _)] at hload
  exact ⟨_, ⟨⟨_, hload⟩, rfl, hle⟩, rfl⟩

end

end RvnSyncPoint
