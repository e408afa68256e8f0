import RvnSyncPoint.Sync.Recording

/-!
# 32-bit records and version-2 recordings

What one pass of the read loop of `next()` does on a file of a version below 3. The 80 bytes of a record are
extracted into a temporary 32-bit point, whose interrupt vector and type are never stored, and which is
then converted. The point that comes of it is the one that the widened record makes
(`readPass_openAt_v2`): a 64-bit record with the same fields, and zeros for the registers that a 32-bit
one does not have. Only what it keeps of the point before differs: an interrupt vector that nothing was
stored in.
-/

namespace RvnSyncPoint

open LittleEndian Loop StreamableFile

/-- The fields of a record of a version-2 file, in the order of the file. -/
structure SyncRecordV2 where
  tsc : UInt64
  type : UInt16
  cs : UInt16
  eax : UInt32
  ebx : UInt32
  ecx : UInt32
  edx : UInt32
  esi : UInt32
  edi : UInt32
  ebp : UInt32
  esp : UInt32
  eip : UInt32
  eflags : UInt32
  cr0 : UInt32
  cr2 : UInt32
  cr3 : UInt32
  cr4 : UInt32
  data_offset : UInt32
  fpu_sw : UInt16
  fpu_cw : UInt16
  fpu_tags : UInt8
  fault_error_code : UInt16
deriving DecidableEq

/-- The 64-bit record with the same fields. -/
def SyncRecordV2.widen (r : SyncRecordV2) : SyncRecord :=
  { tsc := r.tsc, type := r.type, cs := r.cs, rax := r.eax.toUInt64, rbx := r.ebx.toUInt64,
    rcx := r.ecx.toUInt64, rdx := r.edx.toUInt64, rsi := r.esi.toUInt64, rdi := r.edi.toUInt64,
    rbp := r.ebp.toUInt64, rsp := r.esp.toUInt64, r8 := 0, r9 := 0, r10 := 0, r11 := 0, r12 := 0,
    r13 := 0, r14 := 0, r15 := 0, rip := r.eip.toUInt64, rflags := r.eflags.toUInt64,
    cr0 := r.cr0.toUInt64, cr2 := r.cr2.toUInt64, cr3 := r.cr3.toUInt64, cr4 := r.cr4.toUInt64,
    data_offset := r.data_offset, fpu_sw := r.fpu_sw, fpu_cw := r.fpu_cw, fpu_tags := r.fpu_tags,
    fault_error_code := r.fault_error_code.toUInt32 }

theorem SyncRecordV2.widen_type (r : SyncRecordV2) : r.widen.type = r.type := rfl

/-- The temporary point that a record is extracted into. -/
def SyncRecordV2.old_sp (r : SyncRecordV2) (uninitialised : UInt8 × SyncPointType) : SyncPointV2 :=
  { eax := r.eax, ebx := r.ebx, ecx := r.ecx, edx := r.edx, esi := r.esi, edi := r.edi,
    ebp := r.ebp, esp := r.esp, eip := r.eip, eflags := r.eflags, tsc := r.tsc, cr0 := r.cr0,
    cr2 := r.cr2, cr3 := r.cr3, cr4 := r.cr4, fpu_sw := r.fpu_sw, fpu_cw := r.fpu_cw,
    fpu_tags := r.fpu_tags, cs := r.cs, interrupt_vector := uninitialised.1,
    fault_error_code := r.fault_error_code, type := uninitialised.2 }

/-- The record whose 80 bytes begin at the offset `o` of `c`. -/
def recordV2At (c : List UInt8) (o : ℕ) : SyncRecordV2 :=
  { tsc := .ofNat (leAt c o 8), type := .ofNat (leAt c (o + 8) 2), cs := .ofNat (leAt c (o + 10) 2),
    eax := .ofNat (leAt c (o + 12) 4), ebx := .ofNat (leAt c (o + 16) 4),
    ecx := .ofNat (leAt c (o + 20) 4), edx := .ofNat (leAt c (o + 24) 4),
    esi := .ofNat (leAt c (o + 28) 4), edi := .ofNat (leAt c (o + 32) 4),
    ebp := .ofNat (leAt c (o + 36) 4), esp := .ofNat (leAt c (o + 40) 4),
    eip := .ofNat (leAt c (o + 44) 4), eflags := .ofNat (leAt c (o + 48) 4),
    cr0 := .ofNat (leAt c (o + 52) 4), cr2 := .ofNat (leAt c (o + 56) 4),
    cr3 := .ofNat (leAt c (o + 60) 4), cr4 := .ofNat (leAt c (o + 64) 4),
    data_offset := .ofNat (leAt c (o + 68) 4), fpu_sw := .ofNat (leAt c (o + 72) 2),
    fpu_cw := .ofNat (leAt c (o + 74) 2), fpu_tags := .ofNat (leAt c (o + 76) 1),
    fault_error_code := .ofNat (leAt c (o + 77) 2) }

/-- The extractions of a record inside the file, with its byte of padding. -/
theorem readRecordV2_openAt {c : List UInt8} {o : ℕ} (h : o + 80 ≤ c.length)
    (uninitialised : UInt8 × SyncPointType) :
    extract (readRecordV2 uninitialised) (openAt c o) =
      (((recordV2At c o).old_sp uninitialised, (recordV2At c o).type, (recordV2At c o).data_offset),
        openAt c (o + 80)) := by
  unfold readRecordV2 recordV2At SyncRecordV2.old_sp
  simp (disch := omega) only [extract_bind, readUInt64_openAt, readUInt32_openAt,
    readUInt16_openAt, readUInt8_openAt, extract_pure, Nat.add_assoc, Nat.reduceAdd]

/-- The record that is read where nothing is left. -/
def zeroRecordV2 : SyncRecordV2 := ⟨0, 0, 0, 0, 0, 0, 0, 0, 0, 0, 0, 0, 0, 0, 0, 0, 0, 0, 0, 0, 0, 0⟩

/-- The extractions of a record where nothing is left. -/
theorem readRecordV2_end {c : List UInt8} {o : ℕ} (h : c.length ≤ o)
    (uninitialised : UInt8 × SyncPointType) :
    extract (readRecordV2 uninitialised) (openAt c o) =
      ((zeroRecordV2.old_sp uninitialised, 0, 0), endAt c o) := by
  unfold readRecordV2 zeroRecordV2 SyncRecordV2.old_sp
  simp only [extract_bind, readUInt64_end h, readUInt32_silent (.of_eof (endAt_eof c o)),
    readUInt16_silent (.of_eof (endAt_eof c o)), readUInt8_silent (.of_eof (endAt_eof c o)),
    extract_pure]

/-- The point before a 32-bit one: nothing but what the temporary point's vector happens to hold. -/
def strayVector (uninitialised : UInt8 × SyncPointType) : SyncPoint :=
  { interrupt_vector := uninitialised.1 }

/-- The conversion of a 32-bit point is the extraction of the widened record, up to the type that is
stored after it. -/
theorem SyncRecordV2.ofV2_storeType (r : SyncRecordV2) (uninitialised : UInt8 × SyncPointType)
    (data : List SyncPointData) :
    { (SyncPoint.ofV2 (r.old_sp uninitialised)).storeType r.type with data } =
      r.widen.point (strayVector uninitialised) data := by
  have htype := r.widen_type
  unfold SyncRecord.point SyncPoint.storeType
  simp only [htype]
  cases isIrq r.type with
  | true => rfl
  | false => rfl

section readPass

variable {f : SyncFile} {c : List UInt8} {o : ℕ}
variable (hf : f.file = openAt c o) (hv : f.version < 3)
include hf hv

/-- One pass of the read loop, on a whole record. -/
theorem readPass_openAt_v2 (h : o + 80 ≤ c.length) {dc : List UInt8} (hd : Healthy dc f.data_file) :
    f.readPass = some
      { f with file := openAt c (o + 80)
               current := (recordV2At c o).widen.point (strayVector (f.stack 0))
                 (dataAt (recordV2At c o).data_offset f.data_file).1
               data_file := (dataAt (recordV2At c o).data_offset f.data_file).2
               position := (f.position + 1) % 2 ^ 64
               stack := fun i => f.stack (i + 1) } := by
  unfold SyncFile.readPass SyncFile.readPoint
  simp only [hv, if_true, hf, readRecordV2_openAt h, readData_eq hd, Option.bind_eq_bind,
    Option.bind_some]
  rw [SyncRecordV2.ofV2_storeType]
  rfl

/-- One pass of the read loop, at the end of the file. -/
theorem readPass_end_v2 (h : c.length ≤ o) :
    f.readPass = some
      { f with file := endAt c o
               current := zeroPoint (f.stack 0).1
               stack := fun i => f.stack (i + 1) } := by
  unfold SyncFile.readPass SyncFile.readPoint
  simp only [hv, if_true, hf, readRecordV2_end h]
  rfl

end readPass

/-! ## Version-2 recordings -/

/-- A version-2 sync file with a whole number of records. -/
structure RecordingV2 where
  /-- The bytes of the file. -/
  content : List UInt8
  /-- The number of records. -/
  count : ℕ
  /-- A file's offsets are signed 64-bit numbers. -/
  size_lt : content.length < 2 ^ 63
  magic_eq : leAt content 0 8 = SYNC_POINT_MAGIC.toNat
  version_eq : leAt content 8 4 = 2
  record_size_eq : leAt content 16 4 = 80
  length_eq : content.length = HEADER_SIZE + 80 * count

namespace RecordingV2

variable (A : RecordingV2)

/-- The offset of the end of the `k`-th record, where the next one begins. -/
def offset (k : ℕ) : ℕ := HEADER_SIZE + 80 * k

/-- The `k`-th record, counted from 1. -/
def record (k : ℕ) : SyncRecordV2 := recordV2At A.content (offset (k - 1))

theorem offset_succ (k : ℕ) : offset (k + 1) = offset k + 80 := by
  unfold offset
  ring

theorem offset_le {k : ℕ} (h : k ≤ A.count) : offset k ≤ A.content.length := by
  rw [A.length_eq, offset]
  omega

theorem count_lt : A.count + 1 < 2 ^ 64 := by
  have hlen := A.length_eq
  have hsize := A.size_lt
  omega

end RecordingV2

end RvnSyncPoint
