import RvnSyncPoint.Sync.File

/-!
# What `next()` keeps

A property of a reader that each pass of the read loop keeps, and forgetting the cached event, is one
that `next()` keeps (`keptByNext_of_readPass`). `fetch_new_event` moves only by `next()`, so it keeps
it too (`KeptByNext.fetchNewEvent`).
-/

namespace RvnSyncPoint

open Loop StreamableFile

/-- A property of a reader that `next()` keeps. -/
def KeptByNext (P : SyncFile → Prop) : Prop := ∀ f g, P f → f.next = some g → P g

section

variable {P : SyncFile → Prop} {f g : SyncFile}

/-- A pass leaves the file as the extraction of its point does, and the version, the record size and the
cached event as they were. -/
theorem readPass_frame (hpass : f.readPass = some g) : g.file = f.readPoint.2.file ∧
    g.version = f.version ∧ g.record_size = f.record_size ∧ g.current_event = f.current_event := by
  have hkeep : f.readPoint.2.version = f.version ∧ f.readPoint.2.record_size = f.record_size ∧
      f.readPoint.2.current_event = f.current_event := by
    unfold SyncFile.readPoint
    split_ifs <;> exact ⟨rfl, rfl, rfl⟩
  unfold SyncFile.readPass at hpass
  obtain ⟨⟨data, data_file⟩, -, hpass⟩ := Option.bind_eq_some_iff.mp hpass
  dsimp only at hpass
  split_ifs at hpass
  · cases hpass
    exact ⟨rfl, hkeep⟩
  · cases hpass
    exact ⟨rfl, hkeep⟩

/-- A pass counts the record that it reads, unless the file ends in it. -/
theorem readPass_position (hpass : f.readPass = some g) :
    g.position = if g.eof then f.position else (f.position + 1) % 2 ^ 64 := by
  have hkeep : f.readPoint.2.position = f.position := by
    unfold SyncFile.readPoint
    split_ifs <;> rfl
  unfold SyncFile.readPass at hpass
  obtain ⟨⟨data, data_file⟩, -, hpass⟩ := Option.bind_eq_some_iff.mp hpass
  dsimp only at hpass
  split_ifs at hpass with heof
  · cases hpass
    rw [if_pos heof]
    exact hkeep
  · cases hpass
    refine Eq.trans ?_ (if_neg heof).symm
    show (f.readPoint.2.position + 1) % 2 ^ 64 = _
    rw [hkeep]

/-- A property that every pass keeps, and forgetting the event, is kept by `next()`. -/
theorem keptByNext_of_readPass
    (hpass : ∀ f g, P f → f.eof = false → f.readPass = some g → P g)
    (hdrop : ∀ f, P f → P f.dropEvent) : KeptByNext P := by
  intro f g h hnext
  unfold SyncFile.next at hnext
  split_ifs at hnext with heof
  · cases hnext
    exact h
  · obtain ⟨k, hskip, rfl⟩ := Option.map_eq_some_iff.mp hnext
    refine hdrop k ?_
    refine loop_inv (fun f => P f ∧ f.eof = false) P ?_ ?_ f k ⟨h, by simpa using heof⟩ hskip
    · -- The loop goes round again from a record that did not meet the end of the file.
      rintro s s' ⟨hs, hseof⟩ hstep
      obtain ⟨t, ht, hleave⟩ := Option.bind_eq_some_iff.mp hstep
      simp only [Option.pure_def, Option.some.injEq] at hleave
      split_ifs at hleave with hsame
      cases hleave
      simp only [Bool.and_eq_true, Bool.not_eq_true'] at hsame
      exact ⟨hpass s _ hs hseof ht, hsame.2⟩
    · rintro s r ⟨hs, hseof⟩ hstep
      obtain ⟨t, ht, hleave⟩ := Option.bind_eq_some_iff.mp hstep
      simp only [Option.pure_def, Option.some.injEq] at hleave
      split_ifs at hleave
      cases hleave
      exact hpass s _ hs hseof ht

theorem SyncFile.fetchVmenter_state (e : SyncEvent) (f : SyncFile) : (f.fetchVmenter e).state = f := by
  unfold fetchVmenter
  cases e.finish f.current f.position <;> rfl

theorem SyncFile.fetchAfterInterrupt_state (e : SyncEvent) (isp : SyncPoint) (f : SyncFile) :
    (f.fetchAfterInterrupt e isp).state = f := by
  unfold fetchAfterInterrupt
  split_ifs
  · rfl
  · exact fetchVmenter_state _ f

variable (hP : KeptByNext P)
include hP

theorem KeptByNext.skipToVmexit {missing : Bool} {o : SyncFile ⊕ SyncFile} (h : P f)
    (ho : f.skipToVmexit missing = some o) : P (o.elim id id) := by
  refine loop_inv P (fun o => P (o.elim id id)) ?_ ?_ f o h ho
  · intro f g h hstep
    split_ifs at hstep
    · cases hstep
    · obtain ⟨k, hk, hstep⟩ := Option.bind_eq_some_iff.mp hstep
      split_ifs at hstep
      · cases hstep
        exact hP f _ h hk
      · cases hstep
  · intro f r h hstep
    split_ifs at hstep
    · cases hstep
      exact h
    · obtain ⟨k, hk, hstep⟩ := Option.bind_eq_some_iff.mp hstep
      split_ifs at hstep
      · cases hstep
      · cases hstep
        exact hP f _ h hk

theorem KeptByNext.fetchInterrupt {e : SyncEvent} {o : Outcome SyncFile SyncEvent} (h : P f)
    (ho : f.fetchInterrupt e = some o) : P o.state := by
  obtain ⟨g, hg, ho⟩ := Option.bind_eq_some_iff.mp ho
  have hPg := hP f g h hg
  split_ifs at ho
  · cases ho
    exact hPg
  · cases ho
    exact hPg
  · obtain ⟨k, hk, ho⟩ := Option.bind_eq_some_iff.mp ho
    have hPk := hP g k hPg hk
    split_ifs at ho
    · cases ho
      exact hPk
    · cases ho
      rw [SyncFile.fetchAfterInterrupt_state]
      exact hPk
  · cases ho
    rw [SyncFile.fetchAfterInterrupt_state]
    exact hPg

theorem KeptByNext.fetchBody {e : SyncEvent} {o : Outcome SyncFile SyncEvent} (h : P f)
    (ho : f.fetchBody e = some o) : P o.state := by
  unfold SyncFile.fetchBody at ho
  dsimp only at ho
  split_ifs at ho
  · exact hP.fetchInterrupt h ho
  · cases ho
    rw [SyncFile.fetchVmenter_state]
    exact h

/-- Fetching an event only calls `next()`. -/
theorem KeptByNext.fetchNewEvent {o : Outcome SyncFile SyncEvent} (h : P f)
    (ho : f.fetchNewEvent = some o) : P o.state := by
  obtain ⟨r, hr, ho⟩ := Option.bind_eq_some_iff.mp ho
  have hPr := hP.skipToVmexit h hr
  cases r with
  | inl g =>
    cases ho
    exact hPr
  | inr g =>
    dsimp only at ho
    split_ifs at ho
    · exact hP.fetchBody hPr ho
    · obtain ⟨k, hk, ho⟩ := Option.bind_eq_some_iff.mp ho
      have hPk := hP g k hPr hk
      split_ifs at ho
      · cases ho
        exact hPk
      · exact hP.fetchBody hPk ho

end

end RvnSyncPoint
