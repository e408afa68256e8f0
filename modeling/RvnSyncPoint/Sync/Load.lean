import RvnSyncPoint.Sync.Header
import RvnSyncPoint.Sync.Seek

/-!
# Loading a recording

`load` puts any reader at the beginning of the recording, in a good state (`load_reading`); what it
leaves of the state before is the current point, the cached event and the last valid position. A
reader `Loaded` with a recording is a new one on which `load` was called once.
-/

namespace RvnSyncPoint

open LittleEndian Loop StreamableFile

/-- `load` accepts a file with the right magic, a version from 1 to 3 and records of some bytes. -/
theorem load_header (f : SyncFile) (data : Option (List UInt8)) {c : List UInt8} {version rs : UInt32}
    (hlen : 20 ≤ c.length) (hmagic : leAt c 0 8 = SYNC_POINT_MAGIC.toNat)
    (hversion : leAt c 8 4 = version.toNat) (hrs : leAt c 16 4 = rs.toNat)
    (hle : ¬ SYNC_POINT_FILE_VERSION < version) (hversion0 : version ≠ 0) (hrs0 : rs ≠ 0) :
    f.load (some c) data = SyncFile.loadData data { f with
      file := openAt c HEADER_SIZE, position := 0, version, record_size := rs
      sync_point_count :=
        ((openAt c c.length).pos + (2 ^ 64 - HEADER_SIZE)) % 2 ^ 64 / rs.toNat } := by
  have hv : headerVersion c = version := by rw [headerVersion, hversion, UInt32.ofNat_toNat]
  have hr : headerRecordSize c = rs := by rw [headerRecordSize, hrs, UInt32.ofNat_toNat]
  have hheader : SyncHeader c := by
    refine ⟨hlen, by rw [hmagic]; rfl, ?_⟩
    by_contra hgt
    exact hle (hv ▸ (version_handled_iff c).mpr hgt)
  rw [load_of_header hheader, hr, if_neg hrs0, hv, if_neg hversion0, SyncFile.onHeader, headerCount,
    hv, hr]
  rfl

/-- A reader that has opened the sync file of a recording, but not its data file yet. -/
def SyncFile.opened (R : Recording) (f : SyncFile) : SyncFile :=
  { f with file := openAt R.content (R.offset 0), position := 0, version := 3
           record_size := R.record_size, sync_point_count := R.count }

/-- The number of records in a file, from its length. -/
theorem pos_div_count {c : List UInt8} {rs : UInt32} {n : ℕ} (hsize : c.length < 2 ^ 63)
    (hlength : c.length = HEADER_SIZE + rs.toNat * n) (hrs : 0 < rs.toNat) :
    ((openAt c c.length).pos + (2 ^ 64 - HEADER_SIZE)) % 2 ^ 64 / rs.toNat = n := by
  have hsub : (c.length + (2 ^ 64 - HEADER_SIZE)) % 2 ^ 64 = rs.toNat * n := by
    unfold HEADER_SIZE at hlength ⊢
    omega
  rw [openAt_pos (by omega), hsub, Nat.mul_div_cancel_left _ hrs]

section load

variable (R : Recording) (f : SyncFile) (data : Option (List UInt8))

/-- `load` accepts the header of a recording. -/
theorem load_recording : f.load (some R.content) data = (f.opened R).loadData data := by
  have hlength := R.length_eq
  have hlen : 20 ≤ R.content.length := by
    unfold HEADER_SIZE at hlength
    omega
  have hpos : 0 < R.record_size.toNat := lt_of_lt_of_le (by norm_num) R.le_record_size
  have hne : R.record_size ≠ 0 := by
    intro h0
    rw [h0] at hpos
    exact absurd hpos (by decide)
  have hversion : leAt R.content 8 4 = (3 : UInt32).toNat := R.version_eq
  rw [load_header f data hlen R.magic_eq hversion R.record_size_eq (by decide) (by decide) hne,
    pos_div_count R.size_lt R.length_eq hpos]
  rfl

/-- `load` with a data file that is accepted opens the data file, and nothing else. -/
theorem loadData_returned {f g : SyncFile} {data : Option (List UInt8)} {b : Bool}
    (h : f.loadData data = .returned b g) : b = true ∧ Healthy (data.getD []) g.data_file ∧
      g = { f with data_file := g.data_file } := by
  unfold SyncFile.loadData at h
  dsimp only at h
  split_ifs at h with heof hmagic
  · cases h
    exact ⟨rfl, .inl rfl, rfl⟩
  · cases h
    refine ⟨rfl, ?_, rfl⟩
    cases data with
    | none => exact absurd (load_none_eof _) heof
    | some dc => exact (readUInt64_advances dc _ (.inr ⟨0, load_some dc _⟩)).1

/-- The specification of `load` on a recording: whatever state the reader was in, it is at the
beginning of the recording. -/
theorem load_reading {g : SyncFile} {b : Bool} (h : f.load (some R.content) data = .returned b g) :
    b = true ∧ Reading R g ∧ g.position = 0 ∧ g.current = f.current ∧
      g.current_event = f.current_event ∧ g.last_valid_position = f.last_valid_position := by
  rw [load_recording] at h
  obtain ⟨rfl, hdata, hg⟩ := loadData_returned h
  rw [hg]
  exact ⟨rfl, ⟨⟨openAt_on _ _, rfl, rfl, rfl, _, hdata⟩, rfl, Nat.zero_le _⟩, rfl, rfl, rfl, rfl⟩

/-- Without a data file, `load` returns true and closes the data file. -/
theorem load_no_data : ∃ g, f.load (some R.content) none = .returned true g ∧
    g.data_file.eof = true := by
  rw [load_recording]
  unfold SyncFile.loadData
  rw [if_pos (load_none_eof _)]
  exact ⟨_, rfl, rfl⟩

end load

/-! ## Freshly loaded readers -/

/-- The reader `f` is a new one on which the recording was loaded, with the data file `data`. -/
def Loaded (R : Recording) (data : Option (List UInt8)) (f : SyncFile) : Prop :=
  ∃ u, (SyncFile.new u).load (some R.content) data = .returned true f

section Loaded

variable {R : Recording} {data : Option (List UInt8)} {f : SyncFile}

theorem Loaded.reading (h : Loaded R data f) : Reading R f := by
  obtain ⟨u, hu⟩ := h
  exact (load_reading R _ data hu).2.1

/-- The data file is open on its bytes, if there is one. -/
theorem Loaded.healthy (h : Loaded R data f) : Healthy (data.getD []) f.data_file := by
  obtain ⟨u, hu⟩ := h
  rw [load_recording] at hu
  exact (loadData_returned hu).2.1

/-- A new reader has everything at its default. -/
theorem Loaded.fields (h : Loaded R data f) : f.position = 0 ∧ f.current = {} ∧
    f.current_event = {} ∧ f.last_valid_position = 0 := by
  obtain ⟨u, hu⟩ := h
  exact (load_reading R _ data hu).2.2

/-- A recording can be loaded on its own, and then has no data. -/
theorem Loaded.exists_no_data (R : Recording) (u : Uninitialised) : ∃ f, Loaded R none f ∧
    (SyncFile.new u).load (some R.content) none = .returned true f := by
  obtain ⟨f, hf, -⟩ := load_no_data R (SyncFile.new u)
  exact ⟨f, ⟨u, hf⟩, hf⟩

theorem Loaded.no_data (h : Loaded R none f) : f.data_file.eof = true := by
  obtain ⟨u, hu⟩ := h
  obtain ⟨g, hg, heof⟩ := load_no_data R (SyncFile.new u)
  rw [hg] at hu
  cases hu
  exact heof

end Loaded

end RvnSyncPoint
