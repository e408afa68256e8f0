import RvnSyncPoint.Sync.Agree
import RvnSyncPoint.Sync.Encode

/-!
# Loading again

What `load` leaves of the files that were loaded before. It resets the sync file, the position, the
version, the record size and the number of points, but neither the current point, nor the cached
event, nor the last valid position; and a file of version 0 does not touch the data file
(`load_accepted`). Where none of these holds anything, the reader is as good as new (`load_results`).
-/

namespace RvnSyncPoint

open LittleEndian StreamableFile

variable {content : List UInt8} {data : Option (List UInt8)} {f g : SyncFile}

/-- How `load` ends on a file that it accepts, whatever reader it is called on: what it takes from the
header does not depend on the reader. -/
theorem load_accepted (h : f.load (some content) data = .returned true g) :
    ∃ file record_size count, ∀ f' : SyncFile, f'.load (some content) data =
      if leAt content 8 4 = 0 then .returned true (f'.withHeader file 0 record_size count)
      else (f'.withHeader file (.ofNat (leAt content 8 4)) record_size count).loadData data := by
  obtain ⟨hheader, hrs⟩ := header_of_load h
  refine ⟨openAt content HEADER_SIZE, headerRecordSize content, headerCount content, fun f' => ?_⟩
  have hzero : headerVersion content = 0 ↔ leAt content 8 4 = 0 := by
    rw [← UInt32.toNat_inj, headerVersion_toNat]
    rfl
  rw [load_of_header hheader, if_neg hrs]
  by_cases hv : leAt content 8 4 = 0
  · rw [if_pos (hzero.mpr hv), if_pos hv, SyncFile.onHeader, hzero.mpr hv]
  · rw [if_neg (mt hzero.mp hv), if_neg hv]
    rfl

/-! ## What is left of the files loaded before -/

/-- Nothing is left in the reader of the files loaded before, when the file `content` is to be
loaded. -/
structure SyncFile.Clean (content : List UInt8) (f : SyncFile) : Prop where
  current : f.current = {}
  current_event : f.current_event = {}
  last_valid_position : f.last_valid_position = 0
  /-- A file of version 0 has no data file, but does not close the one that was open. -/
  data_file : leAt content 8 4 = 0 → f.data_file.eof = true

/-- Loading the data file of two readers that agree on all the rest. -/
theorem loadData_agree {f' : SyncFile} (h : f.loadData data = .returned true g)
    (hagree : ∀ d e, SameData d e →
      AgreeCached { f with data_file := d } { f' with data_file := e }) :
    ∃ g', f'.loadData data = .returned true g' ∧ AgreeCached g g' := by
  cases data with
  | none =>
    unfold SyncFile.loadData at h ⊢
    rw [if_pos (load_none_eof _)] at h ⊢
    cases h
    exact ⟨_, rfl, hagree _ _ (.inr (.inl ⟨rfl, rfl⟩))⟩
  | some dc =>
    -- The data file is opened at its first byte in both readers.
    have hsame : f'.data_file.load (some dc) = f.data_file.load (some dc) := rfl
    have heof : (f.data_file.load (some dc)).eof ≠ true := by simp
    unfold SyncFile.loadData at h ⊢
    dsimp only at h ⊢
    rw [if_neg heof] at h
    rw [hsame, if_neg heof]
    split_ifs at h with hmagic
    cases h
    exact ⟨_, if_neg hmagic, hagree _ _ (.inl rfl)⟩

/-- A reader in which nothing is left of the files loaded before is, after a `load` that returns true,
as a newly constructed one after the same `load`: every sequence of calls gives the same results. The
new reader finds the same values in the memory that temporary points do not initialise. -/
theorem load_results (file data : Option (List UInt8)) (f g : SyncFile) (u : Uninitialised)
    (hstack : u.stack = f.stack) (hclean : ∀ content, file = some content → f.Clean content)
    (hload : f.load file data = .returned true g) :
    ∃ g₀, (SyncFile.new u).load file data = .returned true g₀ ∧
      ∀ cs, Call.results cs g = Call.results cs g₀ := by
  cases file with
  | none =>
    -- A file that cannot be opened is not loaded.
    unfold SyncFile.load at hload
    simp only [load_none_eof, Bool.true_or, if_true] at hload
    cases hload
  | some content =>
    obtain ⟨hcur, hev, hlast, hdata⟩ := hclean content rfl
    obtain ⟨file, record_size, count, heq⟩ := load_accepted hload
    have hagree : ∀ version d e, SameData d e →
        AgreeCached { f.withHeader file version record_size count with data_file := d }
          { (SyncFile.new u).withHeader file version record_size count with data_file := e } :=
      fun version d e h => ⟨⟨rfl, h, hcur, .inl hev, rfl, rfl, rfl, rfl, fun _ => hstack.symm⟩,
        hev.symm, hlast.symm⟩
    rw [heq f] at hload
    rw [heq (SyncFile.new u)]
    split_ifs at hload ⊢ with hv
    · cases hload
      exact ⟨_, rfl, fun cs => (hagree 0 _ _ (.inr (.inl ⟨hdata hv, rfl⟩))).results cs⟩
    · obtain ⟨g₀, hg₀, h⟩ := loadData_agree hload (hagree _)
      exact ⟨g₀, hg₀, fun cs => h.results cs⟩

/-- The recording of one VMExit. -/
def oneVmexit : Recording := .ofRecords [.simple 0 1 7 5] (by decide) (by decide)

/-- Loading a recording for a second time, before anything was read. -/
theorem load_results_again : ∃ f g g₀, Loaded oneVmexit none f ∧
    f.load (some oneVmexit.content) none = .returned true g ∧
    (SyncFile.new ⟨false, false, 0, 0, f.stack⟩).load (some oneVmexit.content) none =
      .returned true g₀ ∧ ∀ cs, Call.results cs g = Call.results cs g₀ := by
  obtain ⟨f, hf⟩ : ∃ f, Loaded oneVmexit none f := Recording.ofRecords_loaded
  obtain ⟨-, hcur, hev, hlast⟩ := hf.fields
  obtain ⟨g, hg, -⟩ := load_no_data oneVmexit f
  obtain ⟨g₀, hg₀, hsame⟩ := load_results _ none f g ⟨false, false, 0, 0, f.stack⟩ rfl
    (fun content _ => ⟨hcur, hev, hlast, fun _ => hf.no_data⟩) hg
  exact ⟨f, g, g₀, hf, hg, hg₀, hsame⟩

/-- The state that a call of `load` leaves. -/
def SyncFile.LoadResult.state : SyncFile.LoadResult → Option SyncFile
  | .returned _ f => some f
  | .thrown _ f => some f
  | .divisionByZero => none

/-- The states of a reader that public calls reach, earlier loads included. -/
inductive Reachable : SyncFile → Prop
  | new (u : Uninitialised) : Reachable (.new u)
  | load {f g : SyncFile} {file data : Option (List UInt8)} (h : Reachable f)
    (hload : (f.load file data).state = some g) : Reachable g
  | call {f : SyncFile} {c : Call} {o : Outcome SyncFile Value} (h : Reachable f)
    (hcall : c.run f = some o) : Reachable o.state

/-- After the point of a recording was read, loading the recording again leaves the point there. -/
theorem load_results_stale : ¬ ∀ (f g g₀ : SyncFile) (u : Uninitialised)
    (file data : Option (List UInt8)) (cs : List Call), Reachable f → u.stack = f.stack →
    f.load file data = .returned true g → (SyncFile.new u).load file data = .returned true g₀ →
    Call.results cs g = Call.results cs g₀ := by
  intro halways
  obtain ⟨f, u, hf⟩ : ∃ f, Loaded oneVmexit none f := Recording.ofRecords_loaded
  have hloaded : Loaded oneVmexit none f := ⟨u, hf⟩
  have htape : oneVmexit.tape f = [(1, .simple 0 1 7 5)] := Recording.ofRecords_tape hloaded
  obtain ⟨k, hk, hafter, -⟩ := next_reading hloaded.reading
  rw [htape] at hafter
  have hreach : Reachable k := .call (.load (.new u) (by rw [hf]; rfl)) (run_next hk)
  -- The second load leaves the current point as it is.
  obtain ⟨g, hg, -⟩ := load_no_data oneVmexit k
  obtain ⟨g₀, hg₀, -⟩ := load_no_data oneVmexit (.new ⟨false, false, 0, 0, k.stack⟩)
  obtain ⟨-, -, -, hcur, -⟩ := load_reading oneVmexit k none hg
  obtain ⟨-, -, -, hcur₀, -⟩ := load_reading oneVmexit _ none hg₀
  have hsame := halways k g g₀ _ _ none [.current] hreach rfl hg hg₀
  simp only [Call.results, Call.run, Option.bind_eq_bind, Option.bind_some, Outcome.result, hcur,
    hcur₀, hafter.2.2.1, Option.pure_def, Option.some.injEq, List.cons.injEq, Except.ok.injEq,
    Value.point.injEq, and_true] at hsame
  have hne : SyncPoint.simple 0 1 7 5 ≠ {} := by decide
  exact hne hsame

end RvnSyncPoint
