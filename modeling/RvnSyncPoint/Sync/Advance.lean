import RvnSyncPoint.Sync.Agree

/-!
# Advancing to a record

What `advance_to` makes of a reader that has a recording open, whatever state it is in: the seek puts
it on the record (`seek_onRecord`), and from a VMEnter the loop goes back, record by record, to the
VMExit before it or to the first record (`backToVmexit_spec`), where the event is aggregated again
(`advanceTo_vmenter`).
-/

namespace RvnSyncPoint

open LittleEndian Loop StreamableFile

/-- The reader was just put on the `k`-th record. Where `nodata` holds, there is no data file. -/
structure OnRecord (R : Recording) (nodata : Prop) (k : ℕ) (f : SyncFile) : Prop
    extends Reading R f where
  pos : f.position = k
  one_le : 1 ≤ k
  point : ∃ data, f.current = (R.record k).point {} data
  event : f.current_event.is_valid = false
  no_data : nodata → f.data_file.eof = true ∧ f.current.data = []

section

variable {R : Recording} {nodata : Prop} {f g : SyncFile} {k q : ℕ}

theorem OnRecord.le_count (h : OnRecord R nodata k f) : k ≤ R.count := h.pos ▸ h.position_le

theorem OnRecord.isVmexit (h : OnRecord R nodata k f) : f.current.isVmexit = (R.record k).isVmexit := by
  obtain ⟨data, hcur⟩ := h.point
  rw [hcur, SyncRecord.point_isVmexit]

theorem OnRecord.isVmenter (h : OnRecord R nodata k f) :
    f.current.isVmenter = (R.record k).isVmenter := by
  obtain ⟨data, hcur⟩ := h.point
  rw [hcur, SyncRecord.point_isVmenter]

/-- Without a data file, the reader's point is the record alone. -/
theorem OnRecord.current (h : OnRecord R nodata k f) (hno : nodata) :
    f.current = (R.record k).point {} [] := by
  obtain ⟨data, hcur⟩ := h.point
  have hdata := (h.no_data hno).2
  rw [hcur] at hdata ⊢
  obtain rfl : data = [] := hdata
  rfl

/-- A seek to a record puts the reader on it. -/
theorem seek_onRecord (h : Attached R f) (hno : nodata → f.data_file.eof = true) (h1 : 1 ≤ q)
    (hq : q ≤ R.count) :
    ∃ g, f.seek q = some g ∧ OnRecord R nodata q g ∧ g.last_valid_position = q - 1 := by
  obtain ⟨g, hg, hread, hpos, hcur, hdata, hev, hlast⟩ := seek_record h h1 hq
  refine ⟨g, hg, ⟨hread, hpos, h1, ⟨_, hcur⟩, ?_, ?_⟩, hlast⟩
  · rw [hev]
    exact f.current_event.dropped_is_valid
  · intro hnodata
    -- Nothing is read from a data file that is not there.
    have hnone := dataAt_eof (hno hnodata) (R.record q).data_offset
    rw [hdata, hcur, hnone]
    exact ⟨hno hnodata, rfl⟩

/-- The specification of the loop of `advance_to`: it goes back to the last VMExit up to the record
`q`, or to the first record if there is none. -/
theorem backToVmexit_spec (q : ℕ) : ∀ f, OnRecord R nodata q f →
    ∃ g k, f.backToVmexit q = some g ∧ OnRecord R nodata k g ∧ k ≤ q ∧
      ((R.record k).isVmexit = true ∨ k = 1) ∧
      ∀ j, k < j → j ≤ q → (R.record j).isVmexit = false := by
  -- The induction is on the position, which the loop counts down.
  induction q with
  | zero => exact fun f h => absurd h.one_le (by decide)
  | succ q ih =>
    intro f h
    by_cases hstop : (R.record (q + 1)).isVmexit = true ∨ q = 0
    · -- The loop leaves where it is.
      refine ⟨f, q + 1, loop_leave ?_, h, le_rfl, ?_, ?_⟩
      · rcases hstop with hv | hq
        · simp [h.isVmexit, hv]
        · simp [h.pos, hq]
      · exact hstop.imp_right fun hq => by rw [hq]
      · intro j hlt hle
        omega
    · -- Neither a VMExit nor the first record: the loop seeks to the record before.
      obtain ⟨hv, hq⟩ := not_or.mp hstop
      have hv' : (R.record (q + 1)).isVmexit = false := by simpa using hv
      have hle := h.le_count
      have hcount := R.count_lt
      have hpred : pred64 (q + 1) = q := by
        unfold pred64
        omega
      obtain ⟨g, hg, hon, -⟩ := seek_onRecord (q := q) h.toAttached
        (fun hno => (h.no_data hno).1) (by omega) (by omega)
      obtain ⟨g', k, hback, hk, hkq, hstart, hbetween⟩ := ih g hon
      refine ⟨g', k, ?_, hk, by omega, hstart, ?_⟩
      · have hagain : f.backToVmexit (q + 1) = g.backToVmexit q := by
          refine loop_again ?_
          simp [hpred, hg, h.isVmexit, hv', h.pos]
          omega
        rw [hagain]
        exact hback
      · intro j hlt hjq
        rcases Nat.lt_or_ge q j with hj | hj
        · obtain rfl : j = q + 1 := by omega
          exact hv'
        · exact hbetween j hlt hj

/-- `advance_to` ends with its seek, at zero or on a point that is no VMEnter. -/
theorem advanceTo_seek (hseek : f.seek q = some g) (h : q = 0 ∨ g.current.isVmenter = false) :
    f.advanceTo q = some (.returned () g) := by
  unfold SyncFile.advanceTo
  rw [hseek]
  rcases h with hq | hv
  · simp [hq]
  · simp [hv]

/-- The outcome of `advance_to` when it ends with `current_event`. -/
def SyncFile.forget : Outcome SyncFile SyncEvent → Outcome SyncFile Unit := Outcome.map fun _ => ()

/-- `advance_to` after its seek, on a VMEnter. -/
theorem advanceTo_eq (hq : q ≠ 0) (hseek : f.seek q = some g) (hv : g.current.isVmenter = true) :
    f.advanceTo q = ((g.backToVmexit q).bind SyncFile.currentEvent).map SyncFile.forget := by
  unfold SyncFile.advanceTo
  simp only [hseek, Option.bind_eq_bind, Option.bind_some, hq, if_false, hv, if_true]
  cases g.backToVmexit q with
  | none => rfl
  | some k =>
    simp only [Option.bind_some]
    cases k.currentEvent with
    | none => rfl
    | some o =>
      cases o with
      | thrown err k => rfl
      | returned e k => rfl

/-- `advance_to` to a VMEnter aggregates the event again from its VMExit on. -/
theorem advanceTo_vmenter (h : Attached R f) (hno : nodata → f.data_file.eof = true) (h1 : 1 ≤ q)
    (hq : q ≤ R.count) (hv : (R.record q).isVmenter = true) :
    ∃ g k, f.advanceTo q = g.currentEvent.map SyncFile.forget ∧ OnRecord R nodata k g ∧ k ≤ q ∧
      ((R.record k).isVmexit = true ∨ k = 1) ∧
      ∀ j, k < j → j ≤ q → (R.record j).isVmexit = false := by
  obtain ⟨g, hg, hon, -⟩ := seek_onRecord h hno h1 hq
  obtain ⟨g', k, hback, hk⟩ := backToVmexit_spec q g hon
  refine ⟨g', k, ?_, hk⟩
  rw [advanceTo_eq (by omega) hg (hon.isVmenter.trans hv), hback]
  rfl

end

end RvnSyncPoint
