import RvnSyncPoint.Sync.Calls

/-!
# Failed loads

When `load` returns false or throws, the reader is `Closed`: its file is shut, and it has neither a
point nor an event. Every call keeps it so. `next()` and `current_event()` do nothing, because the
file is at its end; the repositioning calls only change the counters, and the loop with which
`advance_to` goes back counts the position down (`closed_of_failed_load`).
-/

namespace RvnSyncPoint

open LittleEndian Loop StreamableFile

/-- The file is shut, and there is neither a point nor an event. -/
structure Closed (f : SyncFile) : Prop where
  shut : Shut f.file
  current : f.current = {}
  current_event : f.current_event.is_valid = false

/-- The arguments of a call are 64-bit numbers. -/
def Call.Bounded : Call → Prop
  | .advanceTo q => q < 2 ^ 64
  | .seekFromEnd p => p < 2 ^ 64
  | _ => True

/-- A division as the processor does it, which does not divide by zero. -/
def div64 (n d : ℕ) : Option ℕ := if d = 0 then none else some (n / d)

/-- `seek_from_end()` with its division as the processor does it. -/
def SyncFile.seekFromEndDividing (position : ℕ) (f : SyncFile) : Option SyncFile :=
  if f.record_size = 0 then some { f with position := 0 }
  else do
    let offset := (f.record_size.toNat * ((position + 1) % 2 ^ 64)) % 2 ^ 64
    let file := f.file.seekFromEnd (toInt64 offset)
    let frames ← div64 ((file.pos + (2 ^ 64 - HEADER_SIZE)) % 2 ^ 64) f.record_size.toNat
    return { f with current := {}, file, position := frames, last_valid_position := position }

/-- `seek_from_end()` does not divide by zero, whatever state the reader is in. -/
theorem seekFromEndDividing_eq (position : ℕ) (f : SyncFile) :
    f.seekFromEndDividing position = some (f.seekFromEnd position) := by
  unfold SyncFile.seekFromEndDividing SyncFile.seekFromEnd
  by_cases h0 : f.record_size = 0
  · rw [if_pos h0, if_pos h0]
  · have hne : ¬ f.record_size.toNat = 0 := fun h => h0 (UInt32.toNat_inj.mp h)
    have hdiv (n : ℕ) : div64 n f.record_size.toNat = some (n / f.record_size.toNat) := if_neg hne
    rw [if_neg h0, if_neg h0]
    simp only [hdiv]
    rfl

section

variable {f g : SyncFile}

theorem Closed.eof (h : Closed f) : f.eof = true := h.shut.eof

/-- `next()` on a closed reader does nothing. -/
theorem Closed.next (h : Closed f) : f.next = some f := by
  rw [SyncFile.next, if_pos h.eof]

/-- Nor does `current_event()`. -/
theorem Closed.currentEvent (h : Closed f) :
    f.currentEvent = some (.returned f.current_event f) := by
  rw [SyncFile.currentEvent, h.eof, Bool.or_true, if_pos rfl]

/-- `seek()` on a closed reader sets the counters. -/
theorem Closed.seek (h : Closed f) (q : ℕ) :
    ∃ g, f.seek q = some g ∧ Closed g ∧ (g.position = 0 ∨ g.position = q - 1) := by
  obtain ⟨hshut, hcurrent, hevent⟩ := h
  unfold SyncFile.seek
  split_ifs with hrs hq
  · exact ⟨_, rfl, ⟨hshut, hcurrent, hevent⟩, .inl rfl⟩
  · exact ⟨_, rfl, ⟨hshut.seek HEADER_SIZE, rfl, hevent⟩, .inl rfl⟩
  · have hclosed (o : ℕ) : Closed
        { f with position := q - 1, file := f.file.seek o, current := {} } :=
      ⟨hshut.seek o, rfl, hevent⟩
    dsimp only
    rw [(hclosed _).next]
    exact ⟨_, rfl, ⟨hshut.seek _, rfl, hevent⟩, .inr rfl⟩

/-- So does `seek_from_end()`. -/
theorem Closed.seekFromEnd (h : Closed f) (p : ℕ) : Closed (f.seekFromEnd p) := by
  obtain ⟨hshut, hcurrent, hevent⟩ := h
  unfold SyncFile.seekFromEnd
  split_ifs
  · exact ⟨hshut, hcurrent, hevent⟩
  · exact ⟨hshut.seekFromEnd _, rfl, hevent⟩

/-- The loop that goes back counts the position down, and ends. -/
theorem Closed.backToVmexit (h : Closed f) {q : ℕ} (hq : q < 2 ^ 64)
    (hpos : f.position = 0 ∨ f.position = q - 1) :
    ∃ g, f.backToVmexit q = some g ∧ Closed g := by
  unfold SyncFile.backToVmexit
  refine loop_total (fun s => Closed s.2 ∧ s.1 < 2 ^ 64 ∧ (s.2.position = 0 ∨ s.2.position = s.1 - 1))
    (fun s => s.2.position) Closed ?_ (q, f) ⟨h, hq, hpos⟩
  rintro ⟨q, f⟩ ⟨h, hq, hpos⟩
  dsimp only at h hq hpos ⊢
  -- The point is the default one, a VMEnter: only the position ends the loop.
  have hnot : f.current.isVmexit = false := by
    rw [h.current]
    rfl
  rw [hnot]
  rcases Nat.lt_or_ge 1 f.position with hlt | hle
  · -- The position that is sought next is the one before, and the reader counts one less again.
    have hpred : pred64 q = q - 1 := by
      unfold pred64
      omega
    obtain ⟨g, hg, hclosed, hgpos⟩ := h.seek (q - 1)
    refine .inr ⟨(q - 1, g), ?_, ⟨hclosed, by omega, hgpos⟩, ?_⟩
    · simp [hlt, hpred, hg]
    · dsimp only
      omega
  · have hnlt : ¬ 1 < f.position := by omega
    exact .inl ⟨f, by simp [hnlt], h⟩

/-- `advance_to()` on a closed reader ends, and leaves it closed. -/
theorem Closed.advanceTo (h : Closed f) {q : ℕ} (hq : q < 2 ^ 64) :
    ∃ g, f.advanceTo q = some (.returned () g) ∧ Closed g := by
  obtain ⟨g, hg, hclosed, hpos⟩ := h.seek q
  obtain ⟨k, hk, hkclosed⟩ := hclosed.backToVmexit hq hpos
  unfold SyncFile.advanceTo
  rw [hg]
  by_cases hzero : q = 0
  · exact ⟨g, by simp [hzero], hclosed⟩
  · have hvmenter : g.current.isVmenter = true := by
      rw [hclosed.current]
      rfl
    exact ⟨k, by simp [hzero, hvmenter, hk, hkclosed.currentEvent], hkclosed⟩

/-- Every call on a closed reader returns, and leaves it closed. -/
theorem Closed.call (h : Closed f) {c : Call} (hc : c.Bounded) :
    ∃ v g, c.run f = some (.returned v g) ∧ Closed g := by
  cases c with
  | next => exact ⟨.point f.current, f, congrArg (Option.map _) h.next, h⟩
  | currentEvent => exact ⟨.event f.current_event, f, congrArg (Option.map _) h.currentEvent, h⟩
  | advanceTo q =>
    obtain ⟨g, hg, hclosed⟩ := h.advanceTo hc
    exact ⟨.unit, g, congrArg (Option.map _) hg, hclosed⟩
  | seekFromEnd p => exact ⟨_, _, rfl, h.seekFromEnd p⟩
  | validate =>
    rw [Call.run, validate_eq]
    exact ⟨_, _, rfl, h.shut, h.current, h.current_event⟩
  | isValid => exact ⟨_, f, rfl, h⟩
  | eof => exact ⟨_, f, rfl, h⟩
  | current => exact ⟨_, f, rfl, h⟩
  | position => exact ⟨_, f, rfl, h⟩
  | lastValidPosition => exact ⟨_, f, rfl, h⟩
  | syncPointCount => exact ⟨_, f, rfl, h⟩

/-- Every run from a closed reader leaves it closed. -/
theorem Closed.run (h : Closed f) (hrun : Run (fun _ c => c.Bounded) f g) : Closed g := by
  induction hrun with
  | start => exact h
  | step hrun hok hcall ih =>
    obtain ⟨v, k, hk, hclosed⟩ := ih.call hok
    rw [hcall] at hk
    cases hk
    exact hclosed

end

/-! ## Loading -/

/-- How a `load` fails: it returns false, or throws. -/
inductive LoadFails : SyncFile.LoadResult → SyncFile → Prop
  | returned (f : SyncFile) : LoadFails (.returned false f) f
  | thrown (err : RuntimeError) (f : SyncFile) : LoadFails (.thrown err f) f

/-- The end of `load` fails only by an exception, with both files closed. -/
theorem loadData_closed {f g : SyncFile} {data : Option (List UInt8)}
    (hcurrent : f.current = {}) (hevent : f.current_event.is_valid = false)
    (h : LoadFails (f.loadData data) g) : Closed g := by
  unfold SyncFile.loadData at h
  dsimp only at h
  split_ifs at h
  · cases h
  · cases h
    exact ⟨close_shut _, hcurrent, hevent⟩
  · cases h

/-- A `load` that fails, on a reader that has neither a point nor an event, leaves it closed. -/
theorem load_closed {f g : SyncFile} {file data : Option (List UInt8)}
    (hcurrent : f.current = {}) (hevent : f.current_event.is_valid = false)
    (h : LoadFails (f.load file data) g) : Closed g := by
  unfold SyncFile.load at h
  dsimp only at h
  split_ifs at h with hopen
  · cases h
    refine ⟨?_, hcurrent, hevent⟩
    -- Only a file that cannot be opened is at its end before anything is read.
    cases file with
    | none => exact load_none_shut f.file
    | some c => cases hopen
  · cases h
    exact ⟨close_shut _, hcurrent, hevent⟩
  · cases h
    exact ⟨close_shut _, hcurrent, hevent⟩
  · cases h
    exact ⟨close_shut _, hcurrent, hevent⟩
  · cases h
    exact ⟨close_shut _, hcurrent, hevent⟩
  · cases h
  · cases h
  · refine loadData_closed ?_ ?_ h
    · exact hcurrent
    · exact hevent

/-- After a `load` that failed on a new reader, and after every sequence of calls that follows: every
call returns, without a division by zero; `is_valid()` is false and `eof()` true; `next()` gives an
invalid point, and `current_event()` an invalid event. -/
theorem closed_of_failed_load (u : Uninitialised) (file data : Option (List UInt8)) (f g : SyncFile)
    (hload : LoadFails ((SyncFile.new u).load file data) f)
    (hrun : Run (fun _ c => c.Bounded) f g) :
    g.isValid = false ∧ g.eof = true ∧
      (∃ h, g.next = some h ∧ h.current.valid = false) ∧
      (∃ e h, g.currentEvent = some (.returned e h) ∧ e.is_valid = false) ∧
      (∀ p, g.seekFromEndDividing p = some (g.seekFromEnd p)) ∧
      ∀ c : Call, c.Bounded → ∃ v h, c.run g = some (.returned v h) := by
  have h : Closed g := (load_closed rfl rfl hload).run hrun
  refine ⟨h.shut.opened, h.eof, ⟨g, h.next, ?_⟩, ⟨_, g, h.currentEvent, h.current_event⟩,
    fun p => seekFromEndDividing_eq p g, fun c hc => ?_⟩
  · rw [h.current]
    rfl
  · obtain ⟨v, k, hk, -⟩ := h.call hc
    exact ⟨v, k, hk⟩

/-- A new reader whose memory holds the record size 256. -/
def newReader : SyncFile := .new ⟨false, false, 256, 3, fun _ => (0, .VMENTER)⟩

/-- On it, `load` of a file that cannot be opened returns false, and `advance_to(3)` returns. -/
theorem closed_of_failed_load_missing :
    LoadFails (newReader.load none none) { newReader with file := newReader.file.load none } ∧
      ∃ v h, (Call.advanceTo 3).run { newReader with file := newReader.file.load none } =
        some (.returned v h) := by
  have hload : LoadFails (newReader.load none none)
      { newReader with file := newReader.file.load none } := .returned _
  obtain ⟨-, -, -, -, -, hcalls⟩ := closed_of_failed_load _ none none _ _ hload .start
  exact ⟨hload, hcalls (.advanceTo 3) (by norm_num [Call.Bounded])⟩

end RvnSyncPoint
