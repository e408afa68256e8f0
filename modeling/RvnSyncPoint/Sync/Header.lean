import RvnSyncPoint.Extraction
import RvnSyncPoint.Sync.File

/-!
# The header of a sync file

The first 20 bytes of a sync file hold its magic number, its version, that of VirtualBox and the size of
its records. When they pass the checks of `load`, what it does is told by them and by the length of the
file (`load_of_header`); when they do not, the file is not loaded (`load_without_header`).
-/

namespace RvnSyncPoint

open LittleEndian StreamableFile

/-- The file begins with a header that `load` accepts: whole, with the magic number and a version that
is handled. The record size is not looked at. -/
structure SyncHeader (c : List UInt8) : Prop where
  le_length : 20 ≤ c.length
  magic : UInt64.ofNat (leAt c 0 8) = SYNC_POINT_MAGIC
  version_le : leAt c 8 4 ≤ 3

/-- The version in the header. -/
def headerVersion (c : List UInt8) : UInt32 := .ofNat (leAt c 8 4)

/-- The record size in the header. -/
def headerRecordSize (c : List UInt8) : UInt32 := .ofNat (leAt c 16 4)

/-- The number of records that `load` takes a file to have, from the offset of its end. -/
def headerCount (c : List UInt8) : ℕ :=
  ((openAt c c.length).pos + (2 ^ 64 - HEADER_SIZE)) % 2 ^ 64 / (headerRecordSize c).toNat

/-- What `load` puts into a reader from the header of a file that it accepts. -/
def SyncFile.withHeader (file : StreamableFile) (version record_size : UInt32) (count : ℕ)
    (f : SyncFile) : SyncFile :=
  { f with file, position := 0, version, record_size, sync_point_count := count }

/-- The reader `f` when the sync file `c` was opened in it, but not its data file yet. -/
def SyncFile.onHeader (c : List UInt8) (f : SyncFile) : SyncFile :=
  f.withHeader (openAt c HEADER_SIZE) (headerVersion c) (headerRecordSize c) (headerCount c)

/-- The 20 bytes of a header: the magic number, the version, that of VirtualBox and the record size. -/
def bareHeader (version record_size : UInt32) : List UInt8 :=
  toBytes 8 SYNC_POINT_MAGIC.toNat ++ (toBytes 4 version.toNat ++ (toBytes 4 0 ++
    toBytes 4 record_size.toNat))

variable {c : List UInt8}

theorem headerVersion_toNat (c : List UInt8) : (headerVersion c).toNat = leAt c 8 4 :=
  UInt32.toNat_ofNat_of_lt' (leAt_lt c 8 4)

/-- The version is handled when it is not above 3. -/
theorem version_handled_iff (c : List UInt8) :
    SYNC_POINT_FILE_VERSION < headerVersion c ↔ ¬ leAt c 8 4 ≤ 3 := by
  rw [UInt32.lt_iff_toNat_lt, headerVersion_toNat, not_le]
  rfl

section

variable (version record_size : UInt32) (rest : List UInt8)

theorem length_bareHeader : (bareHeader version record_size).length = 20 := by
  simp [bareHeader]

theorem headerVersion_bareHeader : headerVersion (bareHeader version record_size ++ rest) = version := by
  simp only [headerVersion, bareHeader, List.append_assoc]
  rw [leAt_toBytes_append_of_le _ (by decide), leAt_toBytes_append _ version.toNat_lt,
    UInt32.ofNat_toNat]

theorem headerRecordSize_bareHeader :
    headerRecordSize (bareHeader version record_size ++ rest) = record_size := by
  simp only [headerRecordSize, bareHeader, List.append_assoc]
  simp (disch := decide) only [leAt_toBytes_append_of_le, Nat.reduceSub]
  rw [leAt_toBytes_append _ record_size.toNat_lt, UInt32.ofNat_toNat]

/-- A file that begins so is accepted if its version is handled. -/
theorem syncHeader_bareHeader (h : version.toNat ≤ 3) :
    SyncHeader (bareHeader version record_size ++ rest) := by
  refine ⟨?_, ?_, ?_⟩
  · rw [List.length_append, length_bareHeader]
    omega
  · rw [bareHeader, List.append_assoc, leAt_toBytes_append _ SYNC_POINT_MAGIC.toNat_lt,
      UInt64.ofNat_toNat]
  · rw [← headerVersion_toNat, headerVersion_bareHeader]
    exact h

end

/-- What `load` does with a header that it accepts. -/
theorem load_of_header (h : SyncHeader c) (f : SyncFile) (data : Option (List UInt8)) :
    f.load (some c) data =
      if headerRecordSize c = 0 then .divisionByZero
      else if headerVersion c = 0 then .returned true (f.onHeader c)
      else (f.onHeader c).loadData data := by
  obtain ⟨hlen, hmagic, hle⟩ := h
  have hversion : ¬ SYNC_POINT_FILE_VERSION < headerVersion c := by
    rwa [version_handled_iff, not_not]
  have hend : (openAt c 20).seekFromEnd 0 = openAt c c.length :=
    (openAt_on _ _).seekFromEnd (Nat.zero_le _)
  have hback : (openAt c c.length).seek HEADER_SIZE = openAt c HEADER_SIZE :=
    (openAt_on _ _).seek (by decide)
  unfold headerVersion at hversion
  unfold SyncFile.load
  simp (disch := omega) only [load_some, openAt_eof, openAt_opened, readUInt64_openAt,
    readUInt32_openAt, Nat.reduceAdd, hmagic, hend, hback, hversion, Bool.not_true, Bool.or_self,
    Bool.false_eq_true, if_false, ne_eq, not_true_eq_false]
  rfl

/-- A file without such a header is not loaded, whatever its data file. -/
theorem load_without_header (h : ¬ SyncHeader c) (f : SyncFile) (data : Option (List UInt8)) :
    (∃ g, f.load (some c) data = .returned false g) ∨
      ∃ err g, f.load (some c) data = .thrown err g := by
  have hafter : After c 20 (extract readUInt32 (extract readUInt32 (extract readUInt32
      (extract readUInt64 (openAt c 0)).2).2).2).2 :=
    readUInt32_asks _ _ _ (readUInt32_asks _ _ _ (readUInt32_asks _ _ _
      (readUInt64_asks c 0 _ (.inl ⟨rfl, Nat.zero_le _⟩))))
  rcases hafter with ⟨-, hle⟩ | ⟨⟨e, heof⟩, -⟩
  · -- The header is whole, with another magic number or a version that is not handled.
    have h0 := readUInt64_openAt (c := c) (o := 0) (by omega)
    have h8 := readUInt32_openAt (c := c) (o := 8) (by omega)
    have h12 := readUInt32_openAt (c := c) (o := 12) (by omega)
    have h16 := readUInt32_openAt (c := c) (o := 16) (by omega)
    unfold SyncFile.load
    simp only [load_some, openAt_eof, openAt_opened, h0, h8, h12, h16, Nat.zero_add, Bool.not_true,
      Bool.or_self, Bool.false_eq_true, if_false]
    by_cases hmagic : UInt64.ofNat (leAt c 0 8) = SYNC_POINT_MAGIC
    · have hversion : SYNC_POINT_FILE_VERSION < UInt32.ofNat (leAt c 8 4) :=
        (version_handled_iff c).mpr fun hv => h ⟨hle, hmagic, hv⟩
      simp [hmagic, hversion]
    · simp [hmagic]
  · -- The header is cut, in the magic number or after it.
    unfold SyncFile.load
    by_cases hend : (extract readUInt64 (openAt c 0)).2.eof = true
    · simp [hend]
    · by_cases hmagic : (extract readUInt64 (openAt c 0)).1 = SYNC_POINT_MAGIC
      · simp [hend, hmagic, heof]
      · simp [hend, hmagic]

/-- A file of which `load` returns true has such a header, with records of some bytes. -/
theorem header_of_load {f g : SyncFile} {data : Option (List UInt8)}
    (h : f.load (some c) data = .returned true g) : SyncHeader c ∧ headerRecordSize c ≠ 0 := by
  by_cases hheader : SyncHeader c
  · refine ⟨hheader, fun h0 => ?_⟩
    rw [load_of_header hheader, if_pos h0] at h
    cases h
  · rcases load_without_header hheader f data with ⟨g', hg⟩ | ⟨err, g', hg⟩
    · rw [hg] at h
      cases h
    · rw [hg] at h
      cases h

end RvnSyncPoint
