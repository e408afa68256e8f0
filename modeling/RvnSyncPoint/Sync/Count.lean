import RvnSyncPoint.Sync.Closed
import RvnSyncPoint.Sync.Scan

/-!
# The number of records

`load` divides the offset of the end of the file, less the size of the header, by the record size of the
header. It looks neither at the divisor nor at the sign of the difference, so what it computes is the
number of whole records exactly when it refuses the file, or the record size is not zero and the file
has the 1024 bytes of a header (`countsRecords_iff`).
-/

namespace RvnSyncPoint

open LittleEndian StreamableFile

/-- `load` does not divide by zero, and when it returns true, `sync_point_count()` is the number of
whole records that follow the header, or zero in a file shorter than that. -/
def CountsRecords (c : List UInt8) (data : Option (List UInt8)) : Prop :=
  ∀ f : SyncFile, f.load (some c) data ≠ .divisionByZero ∧
    ∀ g, f.load (some c) data = .returned true g → g.sync_point_count =
      if HEADER_SIZE ≤ c.length then wholeRecords c (headerRecordSize c) else 0

/-- The data file has another magic number than its own, and is looked at. -/
def RefusesData (c : List UInt8) (data : Option (List UInt8)) : Prop :=
  headerVersion c ≠ 0 ∧ ∃ d, data = some d ∧ UInt64.ofNat (leAt d 0 8) ≠ SYNC_POINT_DATA_MAGIC

variable {c : List UInt8} {data : Option (List UInt8)}

/-- The number of records that `load` computes is that of the file when the difference is not negative;
otherwise the difference wraps around. -/
theorem headerCount_eq_iff (hsize : c.length < 2 ^ 64) (hrs : headerRecordSize c ≠ 0) :
    (headerCount c = if HEADER_SIZE ≤ c.length then wholeRecords c (headerRecordSize c) else 0) ↔
      HEADER_SIZE ≤ c.length := by
  have hpos : 0 < (headerRecordSize c).toNat := Nat.pos_of_ne_zero fun h => hrs (UInt32.toNat_inj.mp h)
  rw [headerCount, openAt_pos hsize, wholeRecords]
  split_ifs with hle
  · have hsub : (c.length + (2 ^ 64 - HEADER_SIZE)) % 2 ^ 64 = c.length - HEADER_SIZE := by
      unfold HEADER_SIZE at hle ⊢
      omega
    rw [hsub]
    exact iff_of_true rfl hle
  · refine iff_of_false ?_ hle
    have hwrap : (headerRecordSize c).toNat ≤ (c.length + (2 ^ 64 - HEADER_SIZE)) % 2 ^ 64 := by
      have hlt := (headerRecordSize c).toNat_lt
      unfold HEADER_SIZE at hle ⊢
      omega
    exact (Nat.div_pos hwrap hpos).ne'

/-- The end of `load` leaves the number of records as it is, and returns true unless the data file is
refused. -/
theorem loadData_count (f : SyncFile) (data : Option (List UInt8)) :
    (∃ err g, f.loadData data = .thrown err g) ∨
      ∃ g, f.loadData data = .returned true g ∧ g.sync_point_count = f.sync_point_count := by
  unfold SyncFile.loadData
  dsimp only
  split_ifs with heof hmagic
  · exact .inr ⟨_, rfl, rfl⟩
  · exact .inl ⟨_, _, rfl⟩
  · exact .inr ⟨_, rfl, rfl⟩

theorem loadData_thrown_iff (f : SyncFile) (data : Option (List UInt8)) :
    (∃ err g, f.loadData data = .thrown err g) ↔
      ∃ d, data = some d ∧ UInt64.ofNat (leAt d 0 8) ≠ SYNC_POINT_DATA_MAGIC := by
  unfold SyncFile.loadData
  cases data with
  | none => simp [load_none_eof]
  | some d =>
    by_cases hmagic : UInt64.ofNat (leAt d 0 8) = SYNC_POINT_DATA_MAGIC
    · simp [readUInt64_value, hmagic]
    · simp [readUInt64_value, hmagic]

/-- How `load` ends on a file whose header it accepts, with records of some bytes. -/
theorem load_count (hheader : SyncHeader c) (hrs : headerRecordSize c ≠ 0) (f : SyncFile) :
    (∃ err g, f.load (some c) data = .thrown err g) ∧ RefusesData c data ∨
      (∃ g, f.load (some c) data = .returned true g ∧ g.sync_point_count = headerCount c) ∧
        ¬ RefusesData c data := by
  rw [load_of_header hheader, if_neg hrs]
  split_ifs with hv
  · exact .inr ⟨⟨_, rfl, rfl⟩, fun h => h.1 hv⟩
  · rcases loadData_count (f.onHeader c) data with hthrown | ⟨g, hg, hcount⟩
    · exact .inl ⟨hthrown, hv, (loadData_thrown_iff _ _).mp hthrown⟩
    · refine .inr ⟨⟨g, hg, hcount⟩, fun h => ?_⟩
      obtain ⟨err, g', hg'⟩ := (loadData_thrown_iff (f.onHeader c) data).mpr h.2
      rw [hg] at hg'
      cases hg'

/-- The files of which `load` counts the records: those whose header it refuses, and those with records
of some bytes that either are as long as a header or have a data file that it refuses. -/
theorem countsRecords_iff (c : List UInt8) (data : Option (List UInt8)) (hsize : c.length < 2 ^ 64) :
    CountsRecords c data ↔ ¬ SyncHeader c ∨
      headerRecordSize c ≠ 0 ∧ (HEADER_SIZE ≤ c.length ∨ RefusesData c data) := by
  by_cases hheader : SyncHeader c
  · by_cases hrs : headerRecordSize c = 0
    · -- The number of records is not a number.
      refine iff_of_false (fun h => ?_) (by simp [hheader, hrs])
      apply (h newReader).1
      rw [load_of_header hheader, if_pos hrs]
    · have hload := @load_count c data hheader hrs
      constructor
      · intro h
        refine .inr ⟨hrs, ?_⟩
        rcases hload newReader with ⟨-, hrefuses⟩ | ⟨⟨g, hg, hcount⟩, -⟩
        · exact .inr hrefuses
        · exact .inl ((headerCount_eq_iff hsize hrs).mp (hcount ▸ (h newReader).2 g hg))
      · rintro (h | ⟨-, h⟩)
        · exact absurd hheader h
        · intro f
          rcases hload f with ⟨⟨err, g, hg⟩, -⟩ | ⟨⟨g, hg, hcount⟩, haccepts⟩
          · rw [hg]
            exact ⟨by simp, by simp⟩
          · rw [hg]
            refine ⟨by simp, fun g' hg' => ?_⟩
            cases hg'
            rw [hcount]
            exact (headerCount_eq_iff hsize hrs).mpr (h.resolve_right haccepts)
  · refine iff_of_true (fun f => ?_) (.inl hheader)
    rcases load_without_header hheader f data with ⟨g, hg⟩ | ⟨err, g, hg⟩
    · rw [hg]
      exact ⟨by simp, by simp⟩
    · rw [hg]
      exact ⟨by simp, by simp⟩

/-- The file of no records that the recorder writes. -/
theorem countsRecords_header : CountsRecords header none := by
  have hlength := length_header
  refine (countsRecords_iff header none (by rw [hlength]; decide)).mpr (.inr ⟨?_, .inl hlength.ge⟩)
  have h256 : leAt header 16 4 = 256 := by decide +kernel
  rw [headerRecordSize, h256]
  decide

/-- On a record size of zero `load` divides by zero, and in a file of 20 bytes it finds records. -/
theorem not_countsRecords :
    ¬ CountsRecords (bareHeader 3 0) none ∧ ¬ CountsRecords (bareHeader 3 256) none := by
  have hheader (rs : UInt32) : SyncHeader (bareHeader 3 rs) := by
    have h := syncHeader_bareHeader 3 rs [] (by decide)
    rwa [List.append_nil] at h
  have hrs (rs : UInt32) : headerRecordSize (bareHeader 3 rs) = rs := by
    have h := headerRecordSize_bareHeader 3 rs []
    rwa [List.append_nil] at h
  constructor
  · rw [countsRecords_iff _ _ (by rw [length_bareHeader]; decide)]
    rintro (h | ⟨h, -⟩)
    · exact h (hheader 0)
    · exact h (hrs 0)
  · rw [countsRecords_iff _ _ (by rw [length_bareHeader]; decide)]
    rintro (h | ⟨-, h | ⟨-, d, hd, -⟩⟩)
    · exact h (hheader 256)
    · rw [length_bareHeader] at h
      exact absurd h (by decide)
    · cases hd

end RvnSyncPoint
