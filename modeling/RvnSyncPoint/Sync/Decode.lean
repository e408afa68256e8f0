import RvnSyncPoint.Sync.Stops

/-!
# Records decoded on their own

Where every interrupt is flagged as one (`Recording.Flagged`), the point of a record does not depend on
those before it, but for the vector of a point that is no interrupt, which is left over from an earlier
one. So `next()` stops at the records that differ from the one before them when each is decoded on its
own (`Recording.stops_eq`), and `next()`, `seek()` and `seek_from_end()` agree on the points and on the
place of the cursor (`next_seek_agree`).
-/

namespace RvnSyncPoint

open LittleEndian Loop StreamableFile

/-- The point of a record decoded on its own, without its data. -/
def SyncRecord.decode (r : SyncRecord) : SyncPoint := r.point {} []

/-- Whatever has the type of an interrupt has the flag of one. -/
def SyncRecord.Flagged (r : SyncRecord) : Prop := irqByte r.type = 0xfe → isIrq r.type = true

instance (r : SyncRecord) : Decidable r.Flagged := inferInstanceAs (Decidable (_ → _))

/-- Every interrupt of the recording is flagged as one. -/
def Recording.Flagged (R : Recording) : Prop := ∀ k, 1 ≤ k → k ≤ R.count → (R.record k).Flagged

/-- A point without the vector that an interrupt before it left over: only an interrupt has one of its
own. -/
def SyncPoint.own (p : SyncPoint) : SyncPoint :=
  { p with interrupt_vector := if p.isInterrupt then p.interrupt_vector else 0 }

/-- The scalar fields of a point, with the vector of an interrupt only. -/
def SyncPoint.scalars (p : SyncPoint) : SyncPoint := { p.own with data := [] }

/-- Is the `k`-th record the first one, or does `operator==` tell it from the one before it? -/
def Recording.keeps (R : Recording) (k : ℕ) : Bool :=
  k = 1 || !(R.record (k - 1)).decode.operatorEq (R.record k).decode

/-- The records after the first `p`, less those that `operator==` identifies with the one before them. -/
def Recording.keptFrom (R : Recording) (p : ℕ) : List ℕ :=
  (List.range' (p + 1) (R.count - p)).filter R.keeps

/-- The records less those that `operator==` identifies with the one before them. -/
def Recording.kept (R : Recording) : List ℕ := R.keptFrom 0

namespace SyncRecord

variable {r : SyncRecord}

/-- A flagged record is an interrupt exactly if it has the flag. -/
theorem Flagged.isInterrupt (h : r.Flagged) : r.isInterrupt = isIrq r.type := by
  unfold SyncRecord.isInterrupt pointType
  cases hirq : isIrq r.type with
  | true => simp
  | false =>
    have hne : irqByte r.type ≠ 0xfe := by
      intro hbyte
      rw [h hbyte] at hirq
      cases hirq
    simpa [SyncPointType.INTERRUPT] using hne

/-- Only the vector of a record's point may come from the point before it, unless it is an interrupt. -/
theorem Flagged.own (h : r.Flagged) (p : SyncPoint) (data : List SyncPointData) :
    (r.point p data).own = { r.decode with data } := by
  have hirq : (r.point p data).isInterrupt = isIrq r.type :=
    (point_isInterrupt r p data).trans h.isInterrupt
  unfold SyncPoint.own
  rw [hirq]
  unfold decode point SyncPoint.storeType
  split_ifs <;> rfl

/-- Nor does `operator==` see what such a point has besides. -/
theorem Flagged.own_operatorEq (h : r.Flagged) (p q : SyncPoint) (data : List SyncPointData) :
    (r.point p data).own.operatorEq q = r.decode.operatorEq q := by
  rw [h.own]
  rfl

/-- The scalar fields of a flagged record's point are those of the record. -/
theorem Flagged.scalars (h : r.Flagged) (p : SyncPoint) (data : List SyncPointData) :
    (r.point p data).scalars = r.decode.scalars := by
  unfold SyncPoint.scalars
  rw [h.own p data, show r.decode.own = _ from h.own {} []]

/-- The point after `c` has the vector of `c`, unless it is an interrupt. -/
theorem Flagged.interrupt_vector (h : r.Flagged) (c : SyncPoint) (data : List SyncPointData)
    (hint : (r.point c data).isInterrupt = false) :
    (r.point c data).interrupt_vector = c.interrupt_vector := by
  rw [point_isInterrupt, h.isInterrupt] at hint
  unfold point SyncPoint.storeType
  simp [hint, extract]

end SyncRecord

/-- An interrupt has a vector of its own. -/
theorem SyncPoint.own_of_isInterrupt {p : SyncPoint} (h : p.isInterrupt = true) : p.own = p := by
  unfold own
  rw [h]
  rfl

theorem SyncRecord.decode_own (r : SyncRecord) : r.decode.own = r.decode := by
  unfold SyncPoint.own decode point SyncPoint.storeType
  split_ifs with hirq hint
  · rfl
  · exact absurd rfl hint
  · rfl
  · rfl

/-- `operator==` does not see a vector that both points have from the same one before them. -/
theorem SyncPoint.operatorEq_own {p q : SyncPoint}
    (h : q.isInterrupt = false → q.interrupt_vector = p.interrupt_vector) :
    p.operatorEq q = p.own.operatorEq q.own := by
  rw [Bool.eq_iff_iff, operatorEq_iff, operatorEq_iff]
  constructor
  · exact congrArg SyncPoint.own
  · intro heq
    have hkind := congrArg SyncPoint.isInterrupt heq
    have htype : p.isInterrupt = q.isInterrupt := hkind
    cases hint : q.isInterrupt with
    | true => rwa [own_of_isInterrupt hint, own_of_isInterrupt (htype.trans hint)] at heq
    | false =>
      -- Put back, the vector is the same in both.
      calc p.compared = { p.own.compared with interrupt_vector := p.interrupt_vector } := rfl
        _ = { q.own.compared with interrupt_vector := q.interrupt_vector } := by rw [heq, h hint]
        _ = q.compared := rfl

/-- `operator==` does not see what a record's point has of the point before it. -/
theorem SyncRecord.Flagged.operatorEq {r : SyncRecord} (h : r.Flagged) (c : SyncPoint)
    (data : List SyncPointData) : c.operatorEq (r.point c data) = c.own.operatorEq r.decode := by
  rw [SyncPoint.operatorEq_own (h.interrupt_vector c data), h.own]
  rfl

section

variable {R : Recording} {f f₀ g g' : SyncFile} {k : ℕ}

/-- Where every interrupt is flagged, `next()` stops where the records differ. -/
theorem Recording.stops_eq (h : R.Flagged) (d : StreamableFile) : R.stops d 0 = R.kept := by
  unfold stops kept keptFrom
  refine List.filter_congr fun k hk => ?_
  obtain ⟨h1, hlt⟩ := List.mem_range'_1.mp hk
  rcases Nat.lt_or_ge 1 k with hk1 | hk1
  · obtain ⟨j, rfl⟩ : ∃ j, k = j + 1 + 1 := ⟨k - 2, by omega⟩
    have hne : ¬ j + 1 + 1 = 1 := by omega
    have hnext := h (j + 1 + 1) (by omega) (by omega)
    have heq : (R.decoded d (j + 1)).1.operatorEq (R.decoded d (j + 1 + 1)).1 =
        (R.record (j + 1)).decode.operatorEq (R.record (j + 1 + 1)).decode :=
      (hnext.operatorEq _ _).trans ((h (j + 1) (by omega) (by omega)).own_operatorEq _ _ _)
    rw [stopsAt, keeps, Nat.add_sub_cancel, heq, decide_eq_false hne, Bool.false_or]
  · obtain rfl : k = 1 := by omega
    rw [R.stopsAt_one (by omega)]
    rfl

theorem Recording.decoded_scalars (h : R.Flagged) (d : StreamableFile) (h1 : 1 ≤ k)
    (hk : k ≤ R.count) : (R.decoded d k).1.scalars = (R.record k).decode.scalars := by
  obtain ⟨-, -, q, data, hpoint⟩ := R.decoded_isPoint (d := d) h1 hk
  rw [hpoint]
  exact (h k h1 hk).scalars q data

/-! ## The cursor -/

/-- The states that a reader `f` can be brought into by `next()`, `seek()` to offsets that the stream
can represent, and `seek_from_end()` to records of the file. -/
inductive CursorRun (R : Recording) (f : SyncFile) : SyncFile → Prop
  | start : CursorRun R f f
  | next {g g' : SyncFile} (hrun : CursorRun R f g) (hg : g.next = some g') : CursorRun R f g'
  | seek {g g' : SyncFile} (q : ℕ) (hrun : CursorRun R f g)
    (hq : HEADER_SIZE + R.record_size.toNat * q < 2 ^ 63) (hg : g.seek q = some g') : CursorRun R f g'
  | seekFromEnd {g : SyncFile} (p : ℕ) (hrun : CursorRun R f g) (hp : p < R.count) :
    CursorRun R f (g.seekFromEnd p)

theorem Attached.seek_placed (h : Attached R f) {q : ℕ} (hq : R.offset q < 2 ^ 63) :
    ∃ g, f.seek q = some g ∧ (Reading R g ∨ Ended R g) := by
  rcases Nat.eq_zero_or_pos q with rfl | h1
  · obtain ⟨g, hg, hread, -⟩ := seek_zero h
    exact ⟨g, hg, .inl hread⟩
  rcases Nat.lt_or_ge R.count q with hlt | hle
  · have hoff : R.offset (q - 1) < 2 ^ 63 := lt_of_le_of_lt (R.offset_mono (Nat.sub_le q 1)) hq
    obtain ⟨g, hg, hend, -⟩ := seek_past h hlt hoff
    exact ⟨g, hg, .inr hend⟩
  · obtain ⟨g, hg, hread, -⟩ := seek_record h h1 hle
    exact ⟨g, hg, .inl hread⟩

theorem Reading.next_state (h : Reading R f ∨ Ended R f) :
    ∃ g, f.next = some g ∧ (Reading R g ∨ Ended R g) := by
  rcases h with h | h
  · obtain ⟨g, hg, -, hpoint⟩ := h.next
    refine ⟨g, hg, ?_⟩
    rcases hpoint with ⟨x, T, -, hafter, -⟩ | ⟨-, hend⟩
    · exact .inl hafter.1
    · exact .inr hend.1
  · exact ⟨f, h.next, .inr h⟩

theorem Reading.attached_or (h : Reading R f ∨ Ended R f) : Attached R f :=
  h.elim (·.toAttached) (·.toAttached)

/-- In every such state the reader is at its position, or at the end of the file. -/
theorem CursorRun.state (hrun : CursorRun R f₀ f) (h₀ : Reading R f₀) : Reading R f ∨ Ended R f := by
  induction hrun with
  | start => exact .inl h₀
  | next hrun hg ih =>
    obtain ⟨k, hk, hstate⟩ := Reading.next_state ih
    rw [hg] at hk
    cases hk
    exact hstate
  | seek q hrun hq hg ih =>
    obtain ⟨k, hk, hstate⟩ := (Reading.attached_or ih).seek_placed hq
    rw [hg] at hk
    cases hk
    exact hstate
  | seekFromEnd p hrun hp ih => exact .inl (seekFromEnd_reading (Reading.attached_or ih) hp).1

theorem Reading.file_pos (h : Reading R f) :
    f.file.pos = HEADER_SIZE + R.record_size.toNat * f.position := by
  have hlt := R.offset_lt h.position_le
  rw [h.file, openAt_pos (by omega)]
  rfl

/-- Sequential and random access agree. In every state that `next()`, `seek()` and `seek_from_end()`
bring a freshly loaded reader into, these calls end; unless the end of the file was met, the position is
not past the last record and the cursor is at its offset; and `seek()` decodes every record as it is. And
`next()` stops at the records that differ from the one before, each decoded as it is, and then at an
invalid point for ever. -/
theorem next_seek_agree (R : Recording) (data : Option (List UInt8)) (f₀ : SyncFile)
    (h₀ : Loaded R data f₀) (hflag : R.Flagged) :
    (∀ f, CursorRun R f₀ f →
      f.next ≠ none ∧
      (∀ q, HEADER_SIZE + R.record_size.toNat * q < 2 ^ 63 → f.seek q ≠ none) ∧
      (f.eof = false → f.position ≤ R.count ∧
        f.file.pos = HEADER_SIZE + R.record_size.toNat * f.position) ∧
      ∀ k, 1 ≤ k → k ≤ R.count → ∃ g, f.seek k = some g ∧ g.position = k ∧
        g.current.scalars = (R.record k).decode.scalars) ∧
    ∀ i, ∃ g, nexts (i + 1) f₀ = some g ∧
      match R.kept[i]? with
      | some k => g.position = k ∧ g.current.scalars = (R.record k).decode.scalars
      | none => g.current.tsc = 0 := by
  -- In every run the reader is in a good state or at the end of the file, and from both a seek is.
  constructor
  · intro f hrun
    have hstate := hrun.state h₀.reading
    have hatt := Reading.attached_or hstate
    refine ⟨?_, ?_, ?_, ?_⟩
    · obtain ⟨g, hg, -⟩ := Reading.next_state hstate
      simp [hg]
    · intro q hq
      obtain ⟨g, hg, -⟩ := hatt.seek_placed hq
      simp [hg]
    · intro heof
      rcases hstate with h | h
      · exact ⟨h.position_le, h.file_pos⟩
      · rw [h.eof] at heof
        cases heof
    · intro k h1 hk
      obtain ⟨g, hg, -, hpos, hcur, -⟩ := seek_record hatt h1 hk
      refine ⟨g, hg, hpos, ?_⟩
      rw [hcur]
      exact (hflag k h1 hk).scalars _ _
  · intro i
    obtain ⟨g, hg, hat⟩ := h₀.nexts i
    -- The points that are returned are those of the stops, each decoded on its own.
    refine ⟨g, hg, ?_⟩
    rw [← Recording.stops_eq hflag f₀.data_file]
    cases hi : (R.stops f₀.data_file 0)[i]? with
    | none =>
      rw [hi] at hat
      obtain ⟨v, hv⟩ := hat.current
      rw [hv]
      rfl
    | some k =>
      rw [hi] at hat
      obtain ⟨h1, hk, -⟩ := Recording.mem_stops.mp (List.mem_of_getElem? hi)
      refine ⟨hat.2.1, ?_⟩
      rw [hat.2.2]
      exact Recording.decoded_scalars hflag _ h1 hk

end

theorem Recording.ofRecords_flagged {rs : List SyncRecord} {htsc : ∀ r ∈ rs, r.tsc ≠ 0}
    {hlen : rs.length ≤ 2 ^ 32} (h : ∀ r ∈ rs, r.Flagged) : (ofRecords rs htsc hlen).Flagged := by
  intro k h1 hk
  obtain ⟨i, rfl⟩ : ∃ i, k = i + 1 := ⟨k - 1, by omega⟩
  have hi : i < rs.length := hk
  rw [ofRecords_record hi]
  exact h _ (List.getElem_mem hi)

/-- On the recording `effectAtEnd`, seeking to the second record gives its point. -/
theorem next_seek_agree_effect : ∃ f₀ g, Loaded effectAtEnd none f₀ ∧ f₀.seek 2 = some g ∧
    g.position = 2 ∧ g.current.scalars = (SyncRecord.simple 0 2 7 5).decode.scalars := by
  obtain ⟨f, hf⟩ : ∃ f, Loaded effectAtEnd none f := Recording.ofRecords_loaded
  have hflag : effectAtEnd.Flagged := Recording.ofRecords_flagged (by decide)
  obtain ⟨-, -, -, hseek⟩ := (next_seek_agree effectAtEnd none f hf hflag).1 f .start
  obtain ⟨g, hg, hpos, hcur⟩ := hseek 2 (by decide) (by decide)
  have hrecord : effectAtEnd.record 2 = .simple 0 2 7 5 := Recording.ofRecords_record (by decide)
  rw [hrecord] at hcur
  exact ⟨f, g, hf, hg, hpos, hcur⟩

end RvnSyncPoint
