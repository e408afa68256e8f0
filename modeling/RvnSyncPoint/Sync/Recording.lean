import RvnSyncPoint.Sync.Record

/-!
# Version-3 recordings

A `Recording` is a version-3 sync file with a whole number of records, all with a nonzero TSC, in
records of at least 201 bytes. A reader of it is `Attached` to the file; in a good state (`Reading`)
its cursor stands at its position, and after the last record it has met the end of the file
(`Ended`).

The `tape` of a reader is what `next()` will return, one point after the other, until the end of the
file: the records that remain, less those identical to their predecessor. `next_reading` is the
specification of `next()`: it takes one point off the tape. `seek_record` is that of the private
`seek()` to a record of the file.
-/

namespace RvnSyncPoint

open LittleEndian Loop StreamableFile

/-- A version-3 sync file with a whole number of records. -/
structure Recording where
  /-- The bytes of the file. -/
  content : List UInt8
  record_size : UInt32
  /-- The number of records. -/
  count : ℕ
  /-- A file's offsets are signed 64-bit numbers. -/
  size_lt : content.length < 2 ^ 63
  magic_eq : leAt content 0 8 = SYNC_POINT_MAGIC.toNat
  version_eq : leAt content 8 4 = 3
  record_size_eq : leAt content 16 4 = record_size.toNat
  le_record_size : 201 ≤ record_size.toNat
  length_eq : content.length = HEADER_SIZE + record_size.toNat * count
  tsc_ne : ∀ k < count, leAt content (HEADER_SIZE + record_size.toNat * k) 8 ≠ 0

namespace Recording

variable (R : Recording)

/-- The offset of the end of the `k`-th record, where the next one begins. -/
def offset (k : ℕ) : ℕ := HEADER_SIZE + R.record_size.toNat * k

/-- The `k`-th record, counted from 1. -/
def record (k : ℕ) : SyncRecord := recordAt R.content (R.offset (k - 1))

/-- The records that follow the first `p`. -/
def recordsFrom (p : ℕ) : List SyncRecord := (List.range' (p + 1) (R.count - p)).map R.record

theorem offset_succ (k : ℕ) : R.offset (k + 1) = R.offset k + R.record_size.toNat := by
  unfold offset
  ring

theorem offset_count : R.offset R.count = R.content.length := R.length_eq.symm

theorem offset_mono {j k : ℕ} (h : j ≤ k) : R.offset j ≤ R.offset k :=
  Nat.add_le_add_left (Nat.mul_le_mul_left _ h) _

theorem count_lt : R.count < 2 ^ 63 := by
  have hlen := R.length_eq
  have hsize := R.size_lt
  have hmul : 201 * R.count ≤ R.record_size.toNat * R.count :=
    Nat.mul_le_mul_right _ R.le_record_size
  omega

theorem recordsFrom_count : R.recordsFrom R.count = [] := by simp [recordsFrom]

theorem recordsFrom_lt {p : ℕ} (h : p < R.count) :
    R.recordsFrom p = R.record (p + 1) :: R.recordsFrom (p + 1) := by
  have hsub : R.count - p = (R.count - (p + 1)) + 1 := by omega
  rw [recordsFrom, hsub, List.range'_succ]
  rfl

/-- Every record has a nonzero TSC. -/
theorem record_tsc {k : ℕ} (h1 : 1 ≤ k) (hk : k ≤ R.count) : (R.record k).tsc ≠ 0 := by
  have hne := R.tsc_ne (k - 1) (by omega)
  have hlt := leAt_lt R.content (R.offset (k - 1)) 8
  intro h0
  apply hne
  have hnat := congrArg UInt64.toNat h0
  simp only [record, recordAt, UInt64.toNat_ofNat', UInt64.toNat_zero] at hnat
  unfold offset at hnat hlt
  omega

end Recording

/-! ## Points of a recording -/

/-- A record keeps nothing of the current point but its interrupt vector. -/
theorem SyncRecord.point_congr (r : SyncRecord) {p q : SyncPoint} (data : List SyncPointData)
    (h : p.interrupt_vector = q.interrupt_vector) : r.point p data = r.point q data := by
  unfold SyncRecord.point SyncPoint.storeType
  split_ifs <;> simp [SyncRecord.extract, h]

@[simp]
theorem SyncRecord.point_tsc (r : SyncRecord) (p : SyncPoint) (data : List SyncPointData) :
    (r.point p data).tsc = r.tsc := by
  unfold SyncRecord.point SyncPoint.storeType
  split_ifs <;> rfl

/-- The type that a record's type word stands for. -/
def SyncRecord.pointType (r : SyncRecord) : SyncPointType :=
  if isIrq r.type then .INTERRUPT else ⟨irqByte r.type⟩

@[simp]
theorem SyncRecord.point_type (r : SyncRecord) (p : SyncPoint) (data : List SyncPointData) :
    (r.point p data).type = r.pointType := by
  unfold SyncRecord.point SyncPoint.storeType SyncRecord.pointType
  split_ifs <;> rfl

/-- Is the record's point an interrupt? -/
def SyncRecord.isInterrupt (r : SyncRecord) : Bool := r.pointType = .INTERRUPT

/-- Is the record's point a VMEnter? -/
def SyncRecord.isVmenter (r : SyncRecord) : Bool := r.pointType = .VMENTER

/-- Is the record's point a VMExit? -/
def SyncRecord.isVmexit (r : SyncRecord) : Bool := !r.isInterrupt && !r.isVmenter

section kind

variable (r : SyncRecord) (p : SyncPoint) (data : List SyncPointData)

@[simp]
theorem SyncRecord.point_isInterrupt : (r.point p data).isInterrupt = r.isInterrupt := by
  simp [SyncPoint.isInterrupt, isInterrupt]

@[simp]
theorem SyncRecord.point_isVmenter : (r.point p data).isVmenter = r.isVmenter := by
  simp [SyncPoint.isVmenter, isVmenter]

@[simp]
theorem SyncRecord.point_isVmexit : (r.point p data).isVmexit = r.isVmexit := by
  simp [SyncPoint.isVmexit, isVmexit]

end kind

/-- Points that `operator==` identifies have the same type. -/
theorem SyncPoint.operatorEq_type {p q : SyncPoint} (h : p.operatorEq q = true) :
    p.type = q.type := by
  rw [operatorEq_iff] at h
  have htype := congrArg SyncPoint.type h
  exact htype

/-- Points that `operator==` identifies have the same interrupt vector. -/
theorem SyncPoint.operatorEq_vector {p q : SyncPoint} (h : p.operatorEq q = true) :
    p.interrupt_vector = q.interrupt_vector := by
  rw [operatorEq_iff] at h
  have hvec := congrArg SyncPoint.interrupt_vector h
  exact hvec

/-- The points that `next()` returns from the position `p` and the current point `c`, each with its
position: the records `rs`, less those identical to the point before them. The data file `d` is
threaded through all of them. -/
def tapeOf : ℕ → SyncPoint → StreamableFile → List SyncRecord → List (ℕ × SyncPoint)
  | _, _, _, [] => []
  | p, c, d, r :: rs =>
    let (data, d) := dataAt r.data_offset d
    let c' := r.point c data
    if c.operatorEq c' then tapeOf (p + 1) c d rs else (p + 1, c') :: tapeOf (p + 1) c' d rs

/-- A data file that is not open. -/
def noData : StreamableFile := .new false

/-- Without a data file, which one it is does not matter. -/
theorem tapeOf_eof {d : StreamableFile} (h : d.eof = true) (p : ℕ) (c : SyncPoint)
    (rs : List SyncRecord) : tapeOf p c d rs = tapeOf p c noData rs := by
  induction rs generalizing p c with
  | nil => rfl
  | cons r rs ih =>
    have hno : noData.eof = true := rfl
    simp only [tapeOf, dataAt_eof h, dataAt_eof hno, ih]

/-- The tape of a reader of a recording. -/
def Recording.tape (R : Recording) (f : SyncFile) : List (ℕ × SyncPoint) :=
  tapeOf f.position f.current f.data_file (R.recordsFrom f.position)

/-! ## The states of a reader -/

/-- The reader has the recording open. -/
structure Attached (R : Recording) (f : SyncFile) : Prop where
  on : On R.content f.file
  version : f.version = 3
  record_size : f.record_size = R.record_size
  sync_point_count : f.sync_point_count = R.count
  data : ∃ dc, Healthy dc f.data_file

/-- The reader is in a good state: the cursor of the file stands after the record at its position. -/
structure Reading (R : Recording) (f : SyncFile) : Prop extends Attached R f where
  file : f.file = openAt R.content (R.offset f.position)
  position_le : f.position ≤ R.count

/-- The reader has met the end of the file, and its current point is the zero one. -/
structure Ended (R : Recording) (f : SyncFile) : Prop extends Attached R f where
  eof : f.eof = true
  current : ∃ v, f.current = zeroPoint v

/-- The reader has just read the first point of a tape `T`, and the rest of it is to come; or it has
met the end of the file, if there was nothing on the tape. -/
def Recording.After (R : Recording) (f : SyncFile) : List (ℕ × SyncPoint) → Prop
  | [] => Ended R f ∧ f.position = R.count
  | (k, c) :: T => Reading R f ∧ f.position = k ∧ f.current = c ∧ R.tape f = T

theorem Recording.After.attached {R : Recording} {f : SyncFile} {T : List (ℕ × SyncPoint)}
    (h : R.After f T) : Attached R f := by
  cases T with
  | nil => exact h.1.toAttached
  | cons x T => exact h.1.toAttached

theorem Reading.eof {R : Recording} {f : SyncFile} (h : Reading R f) : f.eof = false := by
  unfold SyncFile.eof
  rw [h.file]
  rfl

theorem Ended.not_valid {R : Recording} {f : SyncFile} (h : Ended R f) : f.current.valid = false := by
  obtain ⟨v, hv⟩ := h.current
  rw [hv]
  rfl

/-- `next()` does nothing at the end of the file. -/
theorem Ended.next {R : Recording} {f : SyncFile} (h : Ended R f) : f.next = some f := by
  unfold SyncFile.next
  rw [h.eof]
  rfl

section

variable {R : Recording} {f : SyncFile}

/-- One pass of the read loop, from any offset that a whole record follows. -/
theorem Attached.readPass (h : Attached R f) {o : ℕ} (hfile : f.file = openAt R.content o)
    (hle : o + f.record_size.toNat ≤ R.content.length) :
    ∃ f', f.readPass = some f' ∧ Attached R f' ∧
      f'.file = openAt R.content (o + f.record_size.toNat) ∧ f'.position = (f.position + 1) % 2 ^ 64 ∧
      f'.current = (recordAt R.content o).point f.current
        (dataAt (recordAt R.content o).data_offset f.data_file).1 ∧
      f'.data_file = (dataAt (recordAt R.content o).data_offset f.data_file).2 ∧
      f'.current_event = f.current_event ∧ f'.last_valid_position = f.last_valid_position := by
  obtain ⟨dc, hd⟩ := h.data
  have hrs : 201 ≤ f.record_size.toNat := by rw [h.record_size]; exact R.le_record_size
  exact ⟨_, readPass_openAt hfile h.version hrs hle hd, ⟨openAt_on _ _, h.version, h.record_size,
    h.sync_point_count, dc, dataAt_healthy hd _⟩, rfl, rfl, rfl, rfl, rfl, rfl⟩

/-- One pass of the read loop, when there is a record to read. -/
theorem Reading.readPass_lt (h : Reading R f) (hlt : f.position < R.count) :
    ∃ f', f.readPass = some f' ∧ Reading R f' ∧ f'.position = f.position + 1 ∧
      f'.current = (R.record (f.position + 1)).point f.current
        (dataAt (R.record (f.position + 1)).data_offset f.data_file).1 ∧
      f'.data_file = (dataAt (R.record (f.position + 1)).data_offset f.data_file).2 ∧
      f'.current_event = f.current_event ∧ f'.last_valid_position = f.last_valid_position := by
  have hend : R.offset f.position + f.record_size.toNat ≤ R.content.length := by
    rw [h.record_size, ← R.offset_succ, ← R.offset_count]
    exact R.offset_mono hlt
  obtain ⟨f', hpass, hatt, hfile, hpos, hcur, hdata, hev, hlvp⟩ := h.toAttached.readPass h.file hend
  have hmod : (f.position + 1) % 2 ^ 64 = f.position + 1 := by
    have := R.count_lt
    omega
  rw [hmod] at hpos
  refine ⟨f', hpass, ⟨hatt, ?_, by omega⟩, hpos, hcur, hdata, hev, hlvp⟩
  rw [hfile, hpos, R.offset_succ, h.record_size]

/-- One pass of the read loop, after the last record. -/
theorem Reading.readPass_count (h : Reading R f) (hcount : f.position = R.count) :
    ∃ f', f.readPass = some f' ∧ Ended R f' ∧ f'.position = R.count ∧
      f'.current_event = f.current_event ∧ f'.last_valid_position = f.last_valid_position := by
  have hend : R.content.length ≤ R.offset f.position := by rw [hcount, R.offset_count]
  exact ⟨_, readPass_end h.file h.version hend, ⟨⟨endAt_on _ _, h.version, h.record_size,
    h.sync_point_count, h.data⟩, rfl, _, rfl⟩, hcount, rfl, rfl⟩

/-- The read loop takes the tape's first point, or meets the end of the file. The induction is on the
records that remain; `prev` and the current point differ at most in what `operator==` does not see
and a record does not keep. -/
theorem skipIdentical_reading (prev : SyncPoint) (n : ℕ) :
    ∀ f : SyncFile, Reading R f → R.count - f.position = n →
      f.current.interrupt_vector = prev.interrupt_vector →
      ∃ f', SyncFile.skipIdentical prev f = some f' ∧
        R.After f' (tapeOf f.position prev f.data_file (R.recordsFrom f.position)) ∧
        f'.current_event = f.current_event ∧ f'.last_valid_position = f.last_valid_position := by
  induction n with
  | zero =>
    intro f h hn hvec
    have hcount : f.position = R.count := by have := h.position_le; omega
    -- No record remains.
    obtain ⟨f', hpass, hf', hpos, hev, hlvp⟩ := h.readPass_count hcount
    refine ⟨f', ?_, ?_, hev, hlvp⟩
    · exact loop_leave (by simp [hpass, hf'.eof])
    · rw [hcount, R.recordsFrom_count]
      exact ⟨hf', hpos⟩
  | succ n ih =>
    intro f h hn hvec
    have hlt : f.position < R.count := by omega
    obtain ⟨f', hpass, hf', hpos, hcur, hdata, hev, hlvp⟩ := h.readPass_lt hlt
    rw [R.recordsFrom_lt hlt, tapeOf]
    rw [SyncRecord.point_congr _ _ hvec] at hcur
    simp only [← hdata, ← hcur]
    split_ifs with heq
    · -- The record is identical to `prev`: the loop goes round again.
      obtain ⟨f'', hskip, hafter, hev', hlvp'⟩ := ih f' hf' (by omega)
        (SyncPoint.operatorEq_vector heq).symm
      rw [hpos] at hafter
      refine ⟨f'', ?_, hafter, hev'.trans hev, hlvp'.trans hlvp⟩
      rw [SyncFile.skipIdentical, loop_again (t := f') (by simp [hpass, heq, hf'.eof])]
      exact hskip
    · refine ⟨f', loop_leave (by simp [hpass, heq]), ⟨hf', hpos, rfl, ?_⟩, hev, hlvp⟩
      rw [Recording.tape, hpos]

end

/-- The cached event after a `next()` that reads something. -/
def SyncEvent.dropped (e : SyncEvent) : SyncEvent := if e.is_valid then {} else e

theorem SyncEvent.dropped_is_valid (e : SyncEvent) : e.dropped.is_valid = false := by
  unfold dropped
  split_ifs with h
  · rfl
  · simpa using h

theorem SyncFile.dropEvent_eq (f : SyncFile) :
    f.dropEvent = { f with current_event := f.current_event.dropped } := by
  unfold dropEvent SyncEvent.dropped
  split_ifs <;> rfl

/-- Which event is cached does not matter, nor which position was the last valid one. -/
theorem Attached.update {R : Recording} {f : SyncFile} (h : Attached R f) (e : SyncEvent) (l : ℕ) :
    Attached R { f with current_event := e, last_valid_position := l } :=
  ⟨h.on, h.version, h.record_size, h.sync_point_count, h.data⟩

theorem Recording.After.update {R : Recording} {f : SyncFile} {T : List (ℕ × SyncPoint)}
    (h : R.After f T) (e : SyncEvent) (l : ℕ) :
    R.After { f with current_event := e, last_valid_position := l } T := by
  have hatt := h.attached.update e l
  cases T with
  | nil =>
    obtain ⟨hend, hpos⟩ := h
    exact ⟨⟨hatt, hend.eof, hend.current⟩, hpos⟩
  | cons x T =>
    obtain ⟨hread, hrest⟩ := h
    exact ⟨⟨hatt, hread.file, hread.position_le⟩, hrest⟩

theorem Recording.After.keep {R : Recording} {f : SyncFile} {T : List (ℕ × SyncPoint)} (e : SyncEvent)
    (h : R.After f T) : R.After { f with current_event := e } T :=
  h.update e f.last_valid_position

theorem Recording.After.dropEvent {R : Recording} {f : SyncFile} {T : List (ℕ × SyncPoint)}
    (h : R.After f T) : R.After f.dropEvent T := by
  rw [SyncFile.dropEvent_eq]
  exact h.keep _

/-- The specification of `next()` in a good state: it takes one point off the tape, and forgets the
cached event. -/
theorem next_reading {R : Recording} {f : SyncFile} (h : Reading R f) :
    ∃ f', f.next = some f' ∧ R.After f' (R.tape f) ∧
      f'.current_event = f.current_event.dropped ∧
      f'.last_valid_position = f.last_valid_position := by
  obtain ⟨f', hskip, hafter, hev, hlvp⟩ := skipIdentical_reading f.current _ f h rfl rfl
  refine ⟨f'.dropEvent, ?_, hafter.dropEvent, ?_, ?_⟩
  · rw [SyncFile.next, h.eof, hskip]
    rfl
  · rw [SyncFile.dropEvent_eq, hev]
  · rw [SyncFile.dropEvent_eq]
    exact hlvp

end RvnSyncPoint
