import RvnSyncPoint.Sync.File

/-!
# Reading one record

What one pass of the read loop of `next()` does on a version-3 file: inside the file it decodes the
201 bytes at the cursor and moves on by the record size (`readPass_openAt`), and at the end of the
file it leaves a point of zeros (`readPass_end`). The blocks of data attached to a record are read
from the data file by a loop that always ends (`readData_eq`).
-/

namespace RvnSyncPoint

open LittleEndian Loop StreamableFile

/-- The record whose 201 bytes begin at the offset `o` of `c`. -/
def recordAt (c : List UInt8) (o : ℕ) : SyncRecord :=
  { tsc := .ofNat (leAt c o 8), type := .ofNat (leAt c (o + 8) 2), cs := .ofNat (leAt c (o + 10) 2),
    rax := .ofNat (leAt c (o + 12) 8), rbx := .ofNat (leAt c (o + 20) 8),
    rcx := .ofNat (leAt c (o + 28) 8), rdx := .ofNat (leAt c (o + 36) 8),
    rsi := .ofNat (leAt c (o + 44) 8), rdi := .ofNat (leAt c (o + 52) 8),
    rbp := .ofNat (leAt c (o + 60) 8), rsp := .ofNat (leAt c (o + 68) 8),
    r8 := .ofNat (leAt c (o + 76) 8), r9 := .ofNat (leAt c (o + 84) 8),
    r10 := .ofNat (leAt c (o + 92) 8), r11 := .ofNat (leAt c (o + 100) 8),
    r12 := .ofNat (leAt c (o + 108) 8), r13 := .ofNat (leAt c (o + 116) 8),
    r14 := .ofNat (leAt c (o + 124) 8), r15 := .ofNat (leAt c (o + 132) 8),
    rip := .ofNat (leAt c (o + 140) 8), rflags := .ofNat (leAt c (o + 148) 8),
    cr0 := .ofNat (leAt c (o + 156) 8), cr2 := .ofNat (leAt c (o + 164) 8),
    cr3 := .ofNat (leAt c (o + 172) 8), cr4 := .ofNat (leAt c (o + 180) 8),
    data_offset := .ofNat (leAt c (o + 188) 4), fpu_sw := .ofNat (leAt c (o + 192) 2),
    fpu_cw := .ofNat (leAt c (o + 194) 2), fpu_tags := .ofNat (leAt c (o + 196) 1),
    fault_error_code := .ofNat (leAt c (o + 197) 4) }

/-- The extractions of a record inside the file. -/
theorem readRecordV3_openAt {c : List UInt8} {o : ℕ} (h : o + 201 ≤ c.length) :
    extract readRecordV3 (openAt c o) = (recordAt c o, openAt c (o + 201)) := by
  unfold readRecordV3 recordAt
  simp (disch := omega) only [extract_bind, readUInt64_openAt, readUInt32_openAt,
    readUInt16_openAt, readUInt8_openAt, extract_pure, Nat.add_assoc, Nat.reduceAdd]

/-- The record that is read where nothing is left. -/
def zeroRecord : SyncRecord :=
  ⟨0, 0, 0, 0, 0, 0, 0, 0, 0, 0, 0, 0, 0, 0, 0, 0, 0, 0, 0, 0, 0, 0, 0, 0, 0, 0, 0, 0, 0, 0⟩

/-- The extractions of a record where nothing is left meet the end of the file at the first field. -/
theorem readRecordV3_end {c : List UInt8} {o : ℕ} (h : c.length ≤ o) :
    extract readRecordV3 (openAt c o) = (zeroRecord, endAt c o) := by
  unfold readRecordV3 zeroRecord
  have hend : Silent (endAt c o) := .of_eof (endAt_eof c o)
  simp only [extract_bind, readUInt64_end h, readUInt64_silent hend, readUInt32_silent hend,
    readUInt16_silent hend, readUInt8_silent hend, extract_pure]

/-- Padding inside the file is skipped. -/
theorem skipPadding_openAt {c : List UInt8} {o : ℕ} (n : ℕ) (h : o + n ≤ c.length) :
    extract (skipPadding n) (openAt c o) = ((), openAt c (o + n)) := by
  induction n generalizing o with
  | zero => rfl
  | succ n ih =>
    have hih := ih (o := o + 1) (by omega)
    simp only [skipPadding, extract_bind, readUInt8_openAt (c := c) (o := o) (by omega),
      hih]
    rw [Nat.add_assoc, Nat.add_comm 1 n]

/-- Skipping padding in a silent file changes nothing. -/
theorem skipPadding_silent {f : StreamableFile} (n : ℕ) (h : Silent f) :
    extract (skipPadding n) f = ((), f) := by
  induction n with
  | zero => rfl
  | succ n ih => simp only [skipPadding, extract_bind, readUInt8_silent h, ih]

/-- Reading a record does not close the file, whatever state it is in. -/
theorem readRecordV3_keepsOpen : KeepsOpen readRecordV3 := by
  unfold readRecordV3
  refine readUInt64_keepsOpen.bind fun _ => ?_
  iterate 2 refine readUInt16_keepsOpen.bind fun _ => ?_
  iterate 22 refine readUInt64_keepsOpen.bind fun _ => ?_
  refine readUInt32_keepsOpen.bind fun _ => ?_
  iterate 2 refine readUInt16_keepsOpen.bind fun _ => ?_
  refine readUInt8_keepsOpen.bind fun _ => ?_
  refine readUInt32_keepsOpen.bind fun _ => ?_
  exact KeepsOpen.pure _

theorem skipPadding_keepsOpen (n : ℕ) : KeepsOpen (skipPadding n) := by
  induction n with
  | zero => exact KeepsOpen.pure ()
  | succ n ih => exact readUInt8_keepsOpen.bind fun _ => ih

/-! ## Attached data -/

/-- A pass of the data loop: it leaves, or it goes round again with one more block and less to read. -/
theorem readBlock_step {c : List UInt8} {d : StreamableFile} (h : Healthy c d)
    (blocks : List SyncPointData) :
    (∃ d', readBlock (blocks, d) = some (.inr (blocks, d')) ∧ Healthy c d') ∨
      ∃ b d', readBlock (blocks, d) = some (.inl (blocks ++ [b], d')) ∧ Healthy c d' ∧
        remaining d' < remaining d := by
  obtain ⟨hc1, hless⟩ := readUInt32_progress c d h
  generalize htype : extract readUInt32 d = r1 at hc1 hless
  obtain ⟨type, d1⟩ := r1
  obtain ⟨hc2, hle2⟩ := readUInt64_advances c d1 hc1
  generalize hoff : extract readUInt64 d1 = r2 at hc2 hle2
  obtain ⟨offset, d2⟩ := r2
  obtain ⟨hc3, hle3⟩ := readVector_advances readUInt8_advances c d2 hc2
  generalize hdata : extract (readVector readUInt8) d2 = r3 at hc3 hle3
  obtain ⟨data, d3⟩ := r3
  by_cases hend : type = dataEnd
  · exact .inl ⟨d1, by simp only [readBlock, htype, hend, if_true], hc1⟩
  · refine .inr ⟨⟨type, offset, data⟩, d3, by simp only [readBlock, htype, hoff, hdata, hend,
      if_false], hc3, ?_⟩
    -- A type other than the end marker was read, so the file had not met its end.
    rcases hless with hlt | ⟨heof, -⟩
    · simp only at hlt hle2 hle3
      omega
    · rw [readUInt32_silent (.of_eof heof)] at htype
      cases htype
      exact absurd rfl hend

/-- The data loop ends, from any healthy data file. -/
theorem readData_total {c : List UInt8} {d : StreamableFile} (h : Healthy c d) (offset : UInt32) :
    ∃ r, readData offset d = some r ∧ Healthy c r.2 := by
  unfold readData
  split_ifs with hread
  · have hseek : Healthy c (d.seek offset.toNat) := by
      rcases h with h | ⟨o, rfl⟩
      · simp [h] at hread
      · have hoff : offset.toNat < 2 ^ 63 := by
          have := offset.toNat_lt
          omega
        exact .inr ⟨_, (openAt_on c o).seek hoff⟩
    refine loop_total (σ := List SyncPointData × StreamableFile)
      (ρ := List SyncPointData × StreamableFile) (fun s => Healthy c s.2) (fun s => remaining s.2)
      (fun r => Healthy c r.2) ?_ _ hseek
    rintro ⟨blocks, d⟩ hd
    rcases readBlock_step hd blocks with ⟨d', hd', hc'⟩ | ⟨b, d', hd', hc', hlt⟩
    · exact .inl ⟨_, hd', hc'⟩
    · exact .inr ⟨_, hd', hc', hlt⟩
  · exact ⟨_, rfl, h⟩

/-- The blocks at an offset, and the data file after they are read. -/
def dataAt (offset : UInt32) (d : StreamableFile) : List SyncPointData × StreamableFile :=
  (readData offset d).getD ([], d)

theorem readData_eq {c : List UInt8} {d : StreamableFile} (h : Healthy c d) (offset : UInt32) :
    readData offset d = some (dataAt offset d) := by
  obtain ⟨r, hr, -⟩ := readData_total h offset
  rw [dataAt, hr]
  rfl

theorem dataAt_healthy {c : List UInt8} {d : StreamableFile} (h : Healthy c d) (offset : UInt32) :
    Healthy c (dataAt offset d).2 := by
  obtain ⟨r, hr, hc⟩ := readData_total h offset
  rw [dataAt, hr]
  exact hc

/-- A record without data. -/
@[simp]
theorem dataAt_zero (d : StreamableFile) : dataAt 0 d = ([], d) := by
  simp [dataAt, readData]

/-- Without a data file there is no data. -/
theorem dataAt_eof {d : StreamableFile} (h : d.eof = true) (offset : UInt32) :
    dataAt offset d = ([], d) := by
  simp [dataAt, readData, h]

/-! ## The read loop -/

/-- The point that a record makes of the current one `p`, whose interrupt vector it may keep. -/
def SyncRecord.point (r : SyncRecord) (p : SyncPoint) (data : List SyncPointData) : SyncPoint :=
  { (r.extract p).storeType r.type with data }

/-- The point that is read at the end of the file. Its type makes it a VMExit. -/
def zeroPoint (interrupt_vector : UInt8) : SyncPoint :=
  { interrupt_vector, type := .VMX_EXIT_XCPT_OR_NMI }

/-- One pass of the read loop after a failed seek: the record is zero, and the file does not say that
it has met its end. -/
theorem readPass_failed {f : SyncFile} {c : List UInt8} {o : ℕ} (hf : f.file = failedAt c o)
    (hv : f.version = 3) : f.readPass = some
      { f with current := zeroPoint f.current.interrupt_vector
               position := (f.position + 1) % 2 ^ 64 } := by
  have hlt : ¬ f.version < 3 := by rw [hv]; decide
  have hs := failedAt_silent c o
  have hrecord : extract readRecordV3 f.file = (zeroRecord, f.file) := by
    rw [hf]
    unfold readRecordV3 zeroRecord
    simp only [extract_bind, readUInt64_silent hs, readUInt32_silent hs, readUInt16_silent hs,
      readUInt8_silent hs, extract_pure]
  have heof : f.file.eof = false := by rw [hf]; rfl
  unfold SyncFile.readPass SyncFile.readPoint
  simp only [hlt, if_false, hrecord, skipPadding_silent _ (hf ▸ hs), readData]
  simp [zeroRecord, SyncFile.eof, heof]
  rfl

section readPass

variable {f : SyncFile} {c : List UInt8} {o : ℕ}
variable (hf : f.file = openAt c o) (hv : f.version = 3)
include hf hv

/-- At the end of the file the record is zero. -/
theorem readPoint_end (h : c.length ≤ o) :
    f.readPoint = ((0, 0), { f with file := endAt c o, current := zeroRecord.extract f.current }) := by
  have hlt : ¬ f.version < 3 := by rw [hv]; decide
  simp only [SyncFile.readPoint, hlt, if_false, hf, readRecordV3_end h,
    skipPadding_silent _ (.of_eof (endAt_eof c o))]
  rfl

/-- One pass of the read loop, at the end of the file. -/
theorem readPass_end (h : c.length ≤ o) :
    f.readPass = some
      { f with file := endAt c o, current := zeroPoint f.current.interrupt_vector } := by
  unfold SyncFile.readPass
  rw [readPoint_end hf hv h]
  rfl

variable (hr : 201 ≤ f.record_size.toNat)
include hr

/-- A record inside the file is extracted, and its padding skipped. -/
theorem readPoint_openAt (h : o + f.record_size.toNat ≤ c.length) :
    f.readPoint = (((recordAt c o).type, (recordAt c o).data_offset),
      { f with file := openAt c (o + f.record_size.toNat)
               current := (recordAt c o).extract f.current }) := by
  have hpad : (f.record_size - 201).toNat = f.record_size.toNat - 201 := by
    rw [UInt32.toNat_sub_of_le _ _ (by rw [UInt32.le_iff_toNat_le]; exact hr)]
    rfl
  have hskip := skipPadding_openAt (c := c) (o := o + 201) (f.record_size.toNat - 201) (by omega)
  have hsum : o + 201 + (f.record_size.toNat - 201) = o + f.record_size.toNat := by omega
  rw [hsum] at hskip
  have hlt : ¬ f.version < 3 := by rw [hv]; decide
  simp only [SyncFile.readPoint, hlt, if_false, hf, readRecordV3_openAt (c := c) (o := o) (by omega),
    hpad, hskip]

/-- One pass of the read loop, on a whole record. -/
theorem readPass_openAt (h : o + f.record_size.toNat ≤ c.length) {dc : List UInt8}
    (hd : Healthy dc f.data_file) :
    f.readPass = some
      { f with file := openAt c (o + f.record_size.toNat)
               current := (recordAt c o).point f.current
                 (dataAt (recordAt c o).data_offset f.data_file).1
               data_file := (dataAt (recordAt c o).data_offset f.data_file).2
               position := (f.position + 1) % 2 ^ 64 } := by
  unfold SyncFile.readPass
  rw [readPoint_openAt hf hv hr h]
  simp only [readData_eq hd, Option.bind_eq_bind, Option.bind_some]
  rfl

end readPass

end RvnSyncPoint
