import RvnSyncPoint.Sync.Load

/-!
# Writing recordings

The bytes of a record and of a whole version-3 recording, as the recorder lays them out: records of
256 bytes after the header. Reading a record gives it back (`recordAt_bytes`), so that every sequence of
records with nonzero TSCs is a `Recording` (`Recording.ofRecords`, `Recording.ofRecords_record`).
-/

namespace RvnSyncPoint

open LittleEndian StreamableFile

/-- The fields of a record, in the order of the file: the width and the value of each. -/
def SyncRecord.fields (r : SyncRecord) : List (ℕ × ℕ) :=
  [(8, r.tsc.toNat), (2, r.type.toNat), (2, r.cs.toNat),
    (8, r.rax.toNat), (8, r.rbx.toNat), (8, r.rcx.toNat), (8, r.rdx.toNat),
    (8, r.rsi.toNat), (8, r.rdi.toNat), (8, r.rbp.toNat), (8, r.rsp.toNat),
    (8, r.r8.toNat), (8, r.r9.toNat), (8, r.r10.toNat), (8, r.r11.toNat),
    (8, r.r12.toNat), (8, r.r13.toNat), (8, r.r14.toNat), (8, r.r15.toNat),
    (8, r.rip.toNat), (8, r.rflags.toNat),
    (8, r.cr0.toNat), (8, r.cr2.toNat), (8, r.cr3.toNat), (8, r.cr4.toNat),
    (4, r.data_offset.toNat), (2, r.fpu_sw.toNat), (2, r.fpu_cw.toNat), (1, r.fpu_tags.toNat),
    (4, r.fault_error_code.toNat)]

/-- The bytes of a record, with its padding. -/
def SyncRecord.bytes (r : SyncRecord) : List UInt8 :=
  (r.fields.flatMap fun field => toBytes field.1 field.2) ++ List.replicate 55 0

theorem SyncRecord.length_bytes (r : SyncRecord) : r.bytes.length = 256 := by
  simp [bytes, fields]

/-- A record is read back as it was written. -/
theorem recordAt_bytes (r : SyncRecord) (rest : List UInt8) : recordAt (r.bytes ++ rest) 0 = r := by
  have h8 : ∀ x : UInt64, x.toNat < 256 ^ 8 := fun x => x.toNat_lt
  have h4 : ∀ x : UInt32, x.toNat < 256 ^ 4 := fun x => x.toNat_lt
  have h2 : ∀ x : UInt16, x.toNat < 256 ^ 2 := fun x => x.toNat_lt
  have h1 : ∀ x : UInt8, x.toNat < 256 ^ 1 := fun x => x.toNat_lt
  simp only [recordAt, SyncRecord.bytes, SyncRecord.fields, List.flatMap_cons, List.append_assoc,
    Nat.zero_add]
  simp (disch := decide) only [leAt_toBytes_append_of_le, Nat.reduceSub]
  simp only [leAt_toBytes_append _ (h8 _), leAt_toBytes_append _ (h4 _),
    leAt_toBytes_append _ (h2 _), leAt_toBytes_append _ (h1 _), UInt64.ofNat_toNat,
    UInt32.ofNat_toNat, UInt16.ofNat_toNat, UInt8.ofNat_toNat]

/-- A record of the second of two parts. -/
theorem recordAt_append_right (a b : List UInt8) (o : ℕ) :
    recordAt (a ++ b) (a.length + o) = recordAt b o := by
  unfold recordAt
  simp only [Nat.add_assoc, leAt_append_right]

/-- The `i`-th of a sequence of records. -/
theorem recordAt_flatMap (rs : List SyncRecord) (i : ℕ) (h : i < rs.length) :
    recordAt (rs.flatMap SyncRecord.bytes) (256 * i) = rs[i] :=
  decode_flatMap_encode recordAt_append_right SyncRecord.length_bytes recordAt_bytes rs i h

theorem length_flatMap_bytes (rs : List SyncRecord) :
    (rs.flatMap SyncRecord.bytes).length = 256 * rs.length :=
  length_flatMap_encode SyncRecord.length_bytes rs

/-- The header of a version-3 recording, which is filled with zeros. -/
def header : List UInt8 :=
  toBytes 8 SYNC_POINT_MAGIC.toNat ++ (toBytes 4 3 ++ (toBytes 4 0 ++ (toBytes 4 256 ++
    List.replicate 1004 0)))

theorem length_header : header.length = HEADER_SIZE := by
  simp only [header, List.length_append, length_toBytes, List.length_replicate]
  rfl

/-- The recording of a sequence of records. -/
def Recording.ofRecords (rs : List SyncRecord) (htsc : ∀ r ∈ rs, r.tsc ≠ 0)
    (hlen : rs.length ≤ 2 ^ 32) : Recording where
  content := header ++ rs.flatMap SyncRecord.bytes
  record_size := 256
  count := rs.length
  size_lt := by
    rw [List.length_append, length_header, length_flatMap_bytes]
    unfold HEADER_SIZE
    omega
  magic_eq := by
    rw [header, List.append_assoc]
    exact leAt_toBytes_append _ (by decide)
  version_eq := by
    simp only [header, List.append_assoc]
    rw [leAt_toBytes_append_of_le _ (by decide)]
    exact leAt_toBytes_append _ (by decide)
  record_size_eq := by
    simp only [header, List.append_assoc]
    simp (disch := decide) only [leAt_toBytes_append_of_le, Nat.reduceSub]
    exact leAt_toBytes_append _ (by decide)
  le_record_size := by decide
  length_eq := by
    rw [List.length_append, length_header, length_flatMap_bytes]
    rfl
  tsc_ne := by
    intro k hk h0
    have hrecord := recordAt_flatMap rs k hk
    rw [← recordAt_append_right header, length_header] at hrecord
    apply htsc rs[k] (List.getElem_mem hk)
    rw [← hrecord]
    show UInt64.ofNat (leAt _ (HEADER_SIZE + 256 * k) 8) = 0
    rw [show (256 : ℕ) = (256 : UInt32).toNat from rfl, h0]
    rfl

section ofRecords

variable {rs : List SyncRecord} {htsc : ∀ r ∈ rs, r.tsc ≠ 0} {hlen : rs.length ≤ 2 ^ 32}

/-- The records of the recording of a sequence are those of the sequence. -/
theorem Recording.ofRecords_record {i : ℕ} (h : i < rs.length) :
    (ofRecords rs htsc hlen).record (i + 1) = rs[i] := by
  have hrecord := recordAt_flatMap rs i h
  rw [← recordAt_append_right header, length_header] at hrecord
  exact hrecord

theorem Recording.ofRecords_recordsFrom : (ofRecords rs htsc hlen).recordsFrom 0 = rs := by
  apply List.ext_getElem
  · simp [recordsFrom, ofRecords]
  · intro i h h'
    simp only [recordsFrom, List.getElem_map, List.getElem_range']
    have hi : 0 + 1 + 1 * i = i + 1 := by omega
    rw [hi]
    exact ofRecords_record h'

/-- A new reader on which the recording was loaded on its own. -/
theorem Recording.ofRecords_loaded : ∃ f, Loaded (ofRecords rs htsc hlen) none f :=
  (Loaded.exists_no_data _ ⟨false, false, 0, 0, fun _ => (0, .VMENTER)⟩).imp fun _ h => h.1

/-- What a freshly loaded reader of the recording will find. -/
theorem Recording.ofRecords_tape {f : SyncFile} (h : Loaded (ofRecords rs htsc hlen) none f) :
    (ofRecords rs htsc hlen).tape f = tapeOf 0 {} noData rs := by
  obtain ⟨hpos, hcur, -, -⟩ := h.fields
  rw [tape, hpos, hcur, ofRecords_recordsFrom, tapeOf_eof h.no_data]

/-- The header is filled with zeros. -/
theorem Recording.ofRecords_plainHeader : (ofRecords rs htsc hlen).PlainHeader := by
  intro p data
  have htype : (recordAt (ofRecords rs htsc hlen).content
      (HEADER_SIZE - 2 * (ofRecords rs htsc hlen).record_size.toNat)).type = 0 := by
    have hfield : leAt header 520 2 = 0 := by
      simp only [header]
      simp (disch := decide) only [leAt_toBytes_append_of_le, Nat.reduceSub]
      rw [leAt, List.drop_replicate, List.take_replicate, ofBytes_replicate_zero]
    show UInt16.ofNat (leAt (header ++ rs.flatMap SyncRecord.bytes) 520 2) = 0
    rw [leAt_append_left (by rw [length_header]; decide), hfield]
    rfl
  apply Bool.eq_false_of_not_eq_true
  intro heq
  have hsame := SyncPoint.operatorEq_type heq
  rw [SyncRecord.point_type, SyncRecord.pointType, htype] at hsame
  exact absurd hsame (by decide)

/-- A record with the given type word, TSC, RAX and RIP, and everything else zero. -/
def SyncRecord.simple (type : UInt16) (tsc rax rip : UInt64) : SyncRecord :=
  { zeroRecord with type, tsc, rax, rip }

/-- The point of such a record. -/
def SyncPoint.simple (type : UInt16) (tsc rax rip : UInt64) : SyncPoint :=
  (SyncRecord.simple type tsc rax rip).point {} []

end ofRecords

end RvnSyncPoint
