import RvnSyncPoint.Sync.Dump
import RvnSyncPoint.Sync.Formats
import RvnSyncPoint.Sync.Header

/-!
# Stray interrupt vectors

A file of a version below 3 is read through temporary points whose vector and type are not initialised.
The type is stored afterwards, and so is the vector of an interrupt; what is no interrupt keeps the stray
one, which `operator==` compares. So the points that `next()` returns depend on the file alone exactly
when no record is the same as the next one but for a stray vector, and every interrupt is flagged as one
(`reads_same_iff`).

In one direction, two readers of the file skip the same records (`Matched.skipIdentical`). In the other,
a reader can be made to arrive at every record (`OldRecording.arrives`), and the stray vectors that it
finds there decide what it returns.
-/

namespace RvnSyncPoint

open LittleEndian Loop StreamableFile

/-- A sync file of a version below 3 with a whole number of records. -/
structure OldRecording where
  /-- The bytes of the file. -/
  content : List UInt8
  /-- The number of records. -/
  count : ℕ
  /-- A file's offsets are signed 64-bit numbers. -/
  size_lt : content.length < 2 ^ 63
  header : SyncHeader content
  version_lt : headerVersion content < 3
  record_size_eq : headerRecordSize content = 80
  length_eq : content.length = HEADER_SIZE + 80 * count
  tsc_ne : ∀ k < count, leAt content (RecordingV2.offset k) 8 ≠ 0

/-- The `k`-th record, counted from 1. -/
def OldRecording.record (A : OldRecording) (k : ℕ) : SyncRecordV2 :=
  recordV2At A.content (RecordingV2.offset (k - 1))

/-- A new reader on which the file was loaded. -/
def OldRecording.LoadedOn (A : OldRecording) (data : Option (List UInt8)) (f : SyncFile) : Prop :=
  ∃ u, (SyncFile.new u).load (some A.content) data = .returned true f

/-- Every interrupt is flagged as one, and no other record agrees with the one after it. -/
structure OldRecording.Plain (A : OldRecording) : Prop where
  flagged : ∀ k, 1 ≤ k → k ≤ A.count → FlaggedType (A.record k).type
  distinct : ∀ k, 1 ≤ k → k < A.count → isIrq (A.record k).type = false →
    ¬ (A.record k).Agrees (A.record (k + 1))

/-- What the fields `interrupt_vector` and `type` of the temporary points hold. -/
abbrev Stack : Type := ℕ → UInt8 × SyncPointType

/-- The reader, with other values in the memory of the temporary points to come. -/
def SyncFile.withStack (f : SyncFile) (stack : Stack) : SyncFile := { f with stack }

/-- `next()` gives the same on the two readers, however often it is called: the same positions, the same
points, and the end of the file at the same time. -/
def SyncFile.ReadsSame (f g : SyncFile) : Prop :=
  ∀ k, ∃ f' g', nexts k f = some f' ∧ nexts k g = some g' ∧ f'.position = g'.position ∧
    f'.eof = g'.eof ∧ SamePoint f'.current g'.current

/-! ## One pass of the read loop -/

/-- The reader stands at a record of the file, or after the last one. -/
structure OldReading (A : OldRecording) (f : SyncFile) : Prop where
  file : f.file = openAt A.content (RecordingV2.offset f.position)
  version_lt : f.version < 3
  position_le : f.position ≤ A.count
  data : ∃ dc, Healthy dc f.data_file

/-- The point that is made of the next record, with the stray vector `v`. -/
def OldRecording.nextPoint (A : OldRecording) (f : SyncFile) (v : UInt8 × SyncPointType) : SyncPoint :=
  (A.record (f.position + 1)).widen.point (strayVector v)
    (dataAt (A.record (f.position + 1)).data_offset f.data_file).1

/-- The reader after the next record. -/
def OldRecording.passed (A : OldRecording) (f : SyncFile) (v : UInt8 × SyncPointType) : SyncFile :=
  { f with
    file := openAt A.content (RecordingV2.offset (f.position + 1))
    current := A.nextPoint f v
    data_file := (dataAt (A.record (f.position + 1)).data_offset f.data_file).2
    position := f.position + 1 }

section

variable {A : OldRecording} {f g : SyncFile} {p q : SyncPoint} {s t : Stack}

theorem OldRecording.record_tsc {k : ℕ} (h1 : 1 ≤ k) (hk : k ≤ A.count) :
    (A.record k).widen.tsc ≠ 0 := by
  have hne := A.tsc_ne (k - 1) (by omega)
  have hlt := leAt_lt A.content (RecordingV2.offset (k - 1)) 8
  intro h0
  apply hne
  have hnat := congrArg UInt64.toNat h0
  simp only [record, recordV2At, SyncRecordV2.widen, UInt64.toNat_ofNat', UInt64.toNat_zero] at hnat
  omega

theorem OldReading.eof (h : OldReading A f) : f.eof = false := by
  rw [SyncFile.eof, h.file]
  rfl

/-- A pass where there is a record to read. It uses up the first values of the stack. -/
theorem OldReading.readPass_lt (h : OldReading A f) (hlt : f.position < A.count) :
    f.readPass = some ((A.passed f (f.stack 0)).withStack fun i => f.stack (i + 1)) := by
  obtain ⟨dc, hd⟩ := h.data
  have hlen := A.length_eq
  have hsize := A.size_lt
  have hend : RecordingV2.offset f.position + 80 ≤ A.content.length := by
    unfold RecordingV2.offset
    omega
  have hmod : (f.position + 1) % 2 ^ 64 = f.position + 1 := by omega
  rw [readPass_openAt_v2 h.file h.version_lt hend hd, ← RecordingV2.offset_succ, hmod]
  rfl

theorem OldReading.passed (h : OldReading A f) (hlt : f.position < A.count)
    (v : UInt8 × SyncPointType) : OldReading A (A.passed f v) := by
  obtain ⟨dc, hd⟩ := h.data
  exact ⟨rfl, h.version_lt, hlt, dc, dataAt_healthy hd _⟩

theorem OldReading.withStack (h : OldReading A f) (s : Stack) : OldReading A (f.withStack s) :=
  ⟨h.file, h.version_lt, h.position_le, h.data⟩

theorem OldReading.keep (h : OldReading A f) (e : SyncEvent) :
    OldReading A { f with current_event := e } :=
  ⟨h.file, h.version_lt, h.position_le, h.data⟩

theorem OldReading.dropEvent (h : OldReading A f) : OldReading A f.dropEvent := by
  rw [SyncFile.dropEvent_eq]
  exact h.keep _

/-- A pass after the last record. -/
theorem OldReading.readPass_count (h : OldReading A f) (hcount : f.position = A.count) :
    ∃ f', f.readPass = some f' ∧ f'.eof = true ∧ f'.position = A.count ∧
      ∃ v, f'.current = zeroPoint v := by
  have hend : A.content.length ≤ RecordingV2.offset f.position := by
    rw [hcount, A.length_eq]
    exact le_rfl
  exact ⟨_, readPass_end_v2 h.file h.version_lt hend, rfl, hcount, _, rfl⟩

/-- The next record is skipped. -/
theorem OldReading.skip (h : OldReading A f) (hlt : f.position < A.count)
    (heq : p.operatorEq (A.nextPoint f (f.stack 0)) = true) :
    SyncFile.skipIdentical p f =
      SyncFile.skipIdentical p ((A.passed f (f.stack 0)).withStack fun i => f.stack (i + 1)) := by
  have heof := ((h.passed hlt (f.stack 0)).withStack fun i => f.stack (i + 1)).eof
  have hpass := h.readPass_lt hlt
  generalize hg : (A.passed f (f.stack 0)).withStack _ = g at heof hpass
  have hcur : g.current = A.nextPoint f (f.stack 0) := by rw [← hg]; rfl
  rw [SyncFile.skipIdentical, loop_again (t := g) (by simp [hpass, hcur, heq, heof])]

/-- The next record is returned. -/
theorem OldReading.stop (h : OldReading A f) (hlt : f.position < A.count)
    (heq : p.operatorEq (A.nextPoint f (f.stack 0)) = false) :
    SyncFile.skipIdentical p f =
      some ((A.passed f (f.stack 0)).withStack fun i => f.stack (i + 1)) := by
  have hpass := h.readPass_lt hlt
  generalize hg : (A.passed f (f.stack 0)).withStack _ = g at hpass
  have hcur : g.current = A.nextPoint f (f.stack 0) := by rw [← hg]; rfl
  exact loop_leave (by simp [hpass, hcur, heq])

/-! ## Two readers of one file -/

/-- The point of a reader at the position `k`: the default one, or one of the record read last. -/
def OldRecording.LastPoint (A : OldRecording) (k : ℕ) (c : SyncPoint) : Prop :=
  c = {} ∨ 1 ≤ k ∧ k ≤ A.count ∧ ∃ q data, c = (A.record k).widen.point q data

/-- A point that is no interrupt is distinguished from the next record. -/
theorem OldRecording.LastPoint.operatorEq (hA : A.Plain) {k : ℕ} (h : A.LastPoint k p)
    (hint : p.isInterrupt = false) (hk : k < A.count) (q : SyncPoint) (data : List SyncPointData) :
    p.operatorEq ((A.record (k + 1)).widen.point q data) = false := by
  apply Bool.eq_false_of_not_eq_true
  intro heq
  rcases h with rfl | ⟨h1, hle, q', data', rfl⟩
  · -- The default point has a zero TSC.
    have htsc := congrArg SyncPoint.tsc ((SyncPoint.operatorEq_iff _ _).mp heq)
    refine A.record_tsc (Nat.le_add_left 1 k) hk ?_
    rw [← SyncRecord.point_tsc (A.record (k + 1)).widen q data]
    exact htsc.symm
  · refine hA.distinct k h1 hk ?_ (operatorEq_point_default (hA.flagged k h1 hle)
      (hA.flagged (k + 1) (Nat.le_add_left 1 k) hk) heq)
    cases hirq : isIrq (A.record k).type with
    | false => rfl
    | true =>
      rw [SyncRecord.point_isInterrupt, SyncRecord.isInterrupt, SyncRecord.pointType,
        SyncRecordV2.widen_type, hirq] at hint
      cases hint

theorem SamePoint.isInterrupt (h : SamePoint p q) : p.isInterrupt = q.isInterrupt := by
  have htype := congrArg SyncPoint.type h.1
  unfold SyncPoint.isInterrupt
  rw [show p.type = q.type from htype]

/-- Points with the same vector that are the same otherwise. -/
theorem SyncPoint.eq_of_vector (h : { p with interrupt_vector := 0 } = { q with interrupt_vector := 0 })
    (hvec : p.interrupt_vector = q.interrupt_vector) : p = q := by
  calc p = { { p with interrupt_vector := 0 } with interrupt_vector := p.interrupt_vector } := rfl
    _ = { { q with interrupt_vector := 0 } with interrupt_vector := q.interrupt_vector } := by
      rw [h, hvec]
    _ = q := rfl

/-- Interrupts are the same point only if they are the same. -/
theorem SamePoint.eq (h : SamePoint p q) (hint : p.isInterrupt = true) : p = q :=
  SyncPoint.eq_of_vector h.1 (h.2 hint)

/-- The next record is skipped by both readers, or by neither. -/
theorem SamePoint.skips (hA : A.Plain) (hsame : SamePoint p q) {k : ℕ} (hk : k < A.count)
    (hlast : p.isInterrupt = false → A.LastPoint k p ∧ A.LastPoint k q) (v w : UInt8 × SyncPointType)
    (data : List SyncPointData) :
    p.operatorEq ((A.record (k + 1)).widen.point (strayVector v) data) =
      q.operatorEq ((A.record (k + 1)).widen.point (strayVector w) data) := by
  cases hint : p.isInterrupt with
  | false =>
    obtain ⟨hp, hq⟩ := hlast hint
    rw [hp.operatorEq hA hint hk, hq.operatorEq hA (hsame.isInterrupt.symm.trans hint) hk]
  | true =>
    obtain rfl := hsame.eq hint
    have hflagged : FlaggedType (A.record (k + 1)).widen.type :=
      hA.flagged (k + 1) (Nat.le_add_left 1 k) hk
    have hnext := hflagged.samePoint (strayVector v) (strayVector w) data
    cases hint' : (A.record (k + 1)).widen.isInterrupt with
    | true => rw [hnext.eq (by rw [SyncRecord.point_isInterrupt, hint'])]
    | false =>
      -- An interrupt is distinguished from what is none.
      have hno : ∀ x, p.operatorEq ((A.record (k + 1)).widen.point x data) = false := by
        intro x
        apply Bool.eq_false_of_not_eq_true
        intro heq
        have htype := SyncPoint.operatorEq_type heq
        rw [← SyncRecord.point_isInterrupt _ x data, SyncPoint.isInterrupt, ← htype] at hint'
        rw [SyncPoint.isInterrupt, hint'] at hint
        cases hint
      rw [hno, hno]

/-- The two readers stand at the same record, with the same data file. -/
structure Matched (A : OldRecording) (f g : SyncFile) : Prop where
  reading : OldReading A f
  reading' : OldReading A g
  position : f.position = g.position
  data_file : f.data_file = g.data_file

/-- The two readers are at the same record, or have both met the end of the file, and are on the same
point. -/
inductive Together (A : OldRecording) (f g : SyncFile) : Prop
  | before (matched : Matched A f g) (same : SamePoint f.current g.current)
    (last : A.LastPoint f.position f.current) (last' : A.LastPoint f.position g.current)
  | ended (eof : f.eof = true) (eof' : g.eof = true) (position : f.position = g.position)
    (same : SamePoint f.current g.current)

theorem Matched.nextPoint (h : Matched A f g) (v : UInt8 × SyncPointType) :
    A.nextPoint g v = A.nextPoint f v := by
  unfold OldRecording.nextPoint
  rw [h.position, h.data_file]

/-- Both readers read the next record. -/
theorem Matched.passed (h : Matched A f g) (hlt : f.position < A.count) (s t : Stack)
    (v w : UInt8 × SyncPointType) :
    Matched A ((A.passed f v).withStack s) ((A.passed g w).withStack t) := by
  refine ⟨(h.reading.passed hlt v).withStack s, (h.reading'.passed (h.position ▸ hlt) w).withStack t,
    ?_, ?_⟩
  · show f.position + 1 = g.position + 1
    rw [h.position]
  · show (dataAt (A.record (f.position + 1)).data_offset f.data_file).2 =
      (dataAt (A.record (g.position + 1)).data_offset g.data_file).2
    rw [h.position, h.data_file]

theorem OldRecording.nextPoint_last (hlt : f.position < A.count) (v : UInt8 × SyncPointType) :
    A.LastPoint (f.position + 1) (A.nextPoint f v) :=
  .inr ⟨Nat.le_add_left 1 _, hlt, _, _, rfl⟩

/-- The read loops skip the same records, and leave the two readers together. The induction is on the
records that remain. -/
theorem Matched.skipIdentical (hA : A.Plain) (hsame : SamePoint p q) (c : ℕ) :
    ∀ (f g : SyncFile), Matched A f g → A.count - f.position = c →
      (p.isInterrupt = false → A.LastPoint f.position p ∧ A.LastPoint f.position q) →
      ∃ f' g', SyncFile.skipIdentical p f = some f' ∧ SyncFile.skipIdentical q g = some g' ∧
        Together A f' g' := by
  induction c with
  | zero =>
    intro f g h hc hlast
    have hcount : f.position = A.count := by
      have := h.reading.position_le
      omega
    obtain ⟨f', hpass, heof, hpos, v, hcur⟩ := h.reading.readPass_count hcount
    obtain ⟨g', hpass', heof', hpos', w, hcur'⟩ :=
      h.reading'.readPass_count (h.position.symm.trans hcount)
    refine ⟨f', g', loop_leave (by simp [hpass, heof]), loop_leave (by simp [hpass', heof']),
      .ended heof heof' (hpos.trans hpos'.symm) ?_⟩
    rw [hcur, hcur']
    exact ⟨rfl, fun hint => by cases hint⟩
  | succ c ih =>
    intro f g h hc hlast
    have hlt : f.position < A.count := by omega
    have hlt' : g.position < A.count := h.position ▸ hlt
    have hmatched := h.passed hlt (fun i => f.stack (i + 1)) (fun i => g.stack (i + 1)) (f.stack 0)
      (g.stack 0)
    have hskips : p.operatorEq (A.nextPoint f (f.stack 0)) = q.operatorEq (A.nextPoint g (g.stack 0)) := by
      rw [h.nextPoint]
      exact hsame.skips hA hlt hlast _ _ _
    cases heq : p.operatorEq (A.nextPoint f (f.stack 0)) with
    | true =>
      -- Both skip the record, so that the point before was an interrupt.
      rw [heq] at hskips
      rw [h.reading.skip hlt heq, h.reading'.skip hlt' hskips.symm]
      refine ih _ _ hmatched (show A.count - (f.position + 1) = c by omega) fun hint => ?_
      have hno : p.operatorEq (A.nextPoint f (f.stack 0)) = false :=
        (hlast hint).1.operatorEq hA hint hlt _ _
      rw [heq] at hno
      cases hno
    | false =>
      rw [heq] at hskips
      refine ⟨_, _, h.reading.stop hlt heq, h.reading'.stop hlt' hskips.symm, .before hmatched ?_
        (OldRecording.nextPoint_last hlt _) ?_⟩
      · have hflagged : FlaggedType (A.record (f.position + 1)).widen.type :=
          hA.flagged _ (Nat.le_add_left 1 _) hlt
        show SamePoint (A.nextPoint f (f.stack 0)) (A.nextPoint g (g.stack 0))
        rw [h.nextPoint]
        exact hflagged.samePoint _ _ _
      · show A.LastPoint (f.position + 1) (A.nextPoint g (g.stack 0))
        rw [h.nextPoint]
        exact OldRecording.nextPoint_last hlt _

theorem Together.dropEvent (h : Together A f g) : Together A f.dropEvent g.dropEvent := by
  rw [SyncFile.dropEvent_eq, SyncFile.dropEvent_eq]
  cases h with
  | before matched same last last' =>
    exact .before ⟨matched.reading.keep _, matched.reading'.keep _, matched.position,
      matched.data_file⟩ same last last'
  | ended eof eof' position same => exact .ended eof eof' position same

/-- `next()` keeps the two readers together. -/
theorem Together.next (hA : A.Plain) (h : Together A f g) :
    ∃ f' g', f.next = some f' ∧ g.next = some g' ∧ Together A f' g' := by
  cases h with
  | before matched same last last' =>
    obtain ⟨f', g', hf', hg', h'⟩ := matched.skipIdentical hA same _ f g rfl fun _ => ⟨last, last'⟩
    exact ⟨f'.dropEvent, g'.dropEvent, by rw [SyncFile.next, matched.reading.eof, hf']; rfl,
      by rw [SyncFile.next, matched.reading'.eof, hg']; rfl, h'.dropEvent⟩
  | ended eof eof' position same =>
    exact ⟨f, g, by rw [SyncFile.next, if_pos eof], by rw [SyncFile.next, if_pos eof'],
      .ended eof eof' position same⟩

/-- So does any number of calls. -/
theorem Together.readsSame (hA : A.Plain) (h : Together A f g) : f.ReadsSame g := by
  intro k
  induction k generalizing f g with
  | zero =>
    cases h with
    | before matched same last last' =>
      exact ⟨f, g, rfl, rfl, matched.position, by rw [matched.reading.eof, matched.reading'.eof], same⟩
    | ended eof eof' position same => exact ⟨f, g, rfl, rfl, position, by rw [eof, eof'], same⟩
  | succ k ih =>
    obtain ⟨f', g', hf', hg', h'⟩ := h.next hA
    obtain ⟨f'', g'', hf'', hg'', hagree⟩ := ih h'
    exact ⟨f'', g'', by simp [nexts, hf', hf''], by simp [nexts, hg', hg''], hagree⟩

end

/-! ## Arriving at a record -/

/-- The values `v`, and then those of `s`. -/
def Stack.push (v : UInt8 × SyncPointType) (s : Stack) : Stack
  | 0 => v
  | i + 1 => s i

/-- With the right values in the memory of the temporary points, a call of `next()` on the way of `f` gets
to the position `k`, as the reader `h`, and goes on there with the values `t`, whatever they are. It was
made on the point `p`. -/
def OldRecording.Arrives (A : OldRecording) (f : SyncFile) (k : ℕ) (p : SyncPoint) (h : SyncFile) : Prop :=
  OldReading A h ∧ h.position = k ∧ ∃ (m : ℕ) (σ : Stack → Stack), ∀ t,
    nexts (m + 1) (f.withStack (σ t)) =
      (SyncFile.skipIdentical p (h.withStack t)).map SyncFile.dropEvent

theorem nexts_succ (k : ℕ) (f : SyncFile) : nexts (k + 1) f = (nexts k f).bind SyncFile.next := by
  induction k generalizing f with
  | zero => simp [nexts]
  | succ k ih =>
    rw [nexts]
    cases hf : f.next with
    | none => simp [nexts, hf]
    | some g => simp [nexts, hf, ← ih g]

section

variable {A : OldRecording} {f h : SyncFile} {p : SyncPoint} {v : UInt8 × SyncPointType} {k : ℕ}

/-- With `v` on top of the stack, the next record is skipped. -/
theorem OldReading.skip_push (hh : OldReading A h) (hlt : h.position < A.count)
    (heq : p.operatorEq (A.nextPoint h v) = true) (t : Stack) :
    SyncFile.skipIdentical p (h.withStack (Stack.push v t)) =
      SyncFile.skipIdentical p ((A.passed h v).withStack t) :=
  (hh.withStack (Stack.push v t)).skip hlt heq

/-- With `v` on top of the stack, the next record is returned. -/
theorem OldReading.stop_push (hh : OldReading A h) (hlt : h.position < A.count)
    (heq : p.operatorEq (A.nextPoint h v) = false) (t : Stack) :
    SyncFile.skipIdentical p (h.withStack (Stack.push v t)) = some ((A.passed h v).withStack t) :=
  (hh.withStack (Stack.push v t)).stop hlt heq

theorem SyncFile.dropEvent_position (h : SyncFile) : h.dropEvent.position = h.position := by
  rw [SyncFile.dropEvent_eq]

theorem SyncFile.dropEvent_eof (h : SyncFile) : h.dropEvent.eof = h.eof := by
  rw [SyncFile.dropEvent_eq]
  rfl

theorem OldRecording.Arrives.skip (ha : A.Arrives f k p h) (hk : k < A.count)
    (heq : p.operatorEq (A.nextPoint h v) = true) : A.Arrives f (k + 1) p (A.passed h v) := by
  obtain ⟨hh, rfl, m, σ, hσ⟩ := ha
  refine ⟨hh.passed hk v, rfl, m, fun t => σ (t.push v), fun t => ?_⟩
  rw [hσ, hh.skip_push hk heq]

/-- The next call of `next()` is made on the record that was returned. -/
theorem OldRecording.Arrives.stop (ha : A.Arrives f k p h) (hk : k < A.count)
    (heq : p.operatorEq (A.nextPoint h v) = false) :
    A.Arrives f (k + 1) (A.nextPoint h v) (A.passed h v).dropEvent := by
  obtain ⟨hh, rfl, m, σ, hσ⟩ := ha
  refine ⟨(hh.passed hk v).dropEvent, SyncFile.dropEvent_position _, m + 1, fun t => σ (t.push v),
    fun t => ?_⟩
  have hdrop : ((A.passed h v).withStack t).dropEvent = (A.passed h v).dropEvent.withStack t := by
    rw [SyncFile.dropEvent_eq, SyncFile.dropEvent_eq]
    rfl
  have heof := ((hh.passed hk v).dropEvent.withStack t).eof
  have hcur : ((A.passed h v).dropEvent.withStack t).current = A.nextPoint h v := by
    rw [SyncFile.dropEvent_eq]
    rfl
  rw [nexts_succ, hσ, hh.stop_push hk heq, Option.map_some, Option.bind_some, hdrop, SyncFile.next, heof,
    hcur]
  rfl

/-- What is no interrupt keeps the stray vector. -/
theorem OldRecording.nextPoint_vector (hirq : isIrq (A.record (h.position + 1)).type = false)
    (v : UInt8 × SyncPointType) : (A.nextPoint h v).interrupt_vector = v.1 := by
  unfold nextPoint SyncRecord.point SyncPoint.storeType
  rw [SyncRecordV2.widen_type, hirq]
  rfl

/-- With a vector other than that of the point, it is distinguished from it. -/
theorem OldRecording.nextPoint_ne (hirq : isIrq (A.record (h.position + 1)).type = false)
    (hv : p.interrupt_vector ≠ v.1) : p.operatorEq (A.nextPoint h v) = false := by
  apply Bool.eq_false_of_not_eq_true
  intro heq
  exact hv ((SyncPoint.operatorEq_vector heq).trans (nextPoint_vector hirq v))

/-- Some call of `next()` arrives at any record. -/
theorem OldReading.arrives (hf : OldReading A f) (hpos : f.position = 0) (k : ℕ) :
    k ≤ A.count → ∃ p h, A.Arrives f k p h := by
  induction k with
  | zero =>
    refine fun _ => ⟨f.current, f, hf, hpos, 0, id, fun t => ?_⟩
    have heof := (hf.withStack t).eof
    rw [nexts_succ, nexts, Option.bind_some, SyncFile.next, id, heof]
    rfl
  | succ k ih =>
    intro hk
    obtain ⟨p, h, ha⟩ := ih (by omega)
    cases heq : p.operatorEq (A.nextPoint h (0, .VMENTER)) with
    | true => exact ⟨_, _, ha.skip hk heq⟩
    | false => exact ⟨_, _, ha.stop hk heq⟩

/-! ## What the stray vectors decide -/

/-- The read loop leaves on a later record, or at the end of the file. The induction is on the records that
remain. -/
theorem OldReading.skipIdentical (p : SyncPoint) (c : ℕ) :
    ∀ h, OldReading A h → A.count - h.position = c →
      ∃ h', SyncFile.skipIdentical p h = some h' ∧ (h'.eof = true ∨ h.position < h'.position) := by
  induction c with
  | zero =>
    intro h hh hc
    have hle := hh.position_le
    obtain ⟨h', hpass, heof, -⟩ := hh.readPass_count (by omega)
    exact ⟨h', loop_leave (by simp [hpass, heof]), .inl heof⟩
  | succ c ih =>
    intro h hh hc
    have hlt : h.position < A.count := by omega
    cases heq : p.operatorEq (A.nextPoint h (h.stack 0)) with
    | true =>
      obtain ⟨h', hskip, hlater⟩ := ih _ ((hh.passed hlt (h.stack 0)).withStack fun i => h.stack (i + 1))
        (show A.count - (h.position + 1) = c by omega)
      rw [hh.skip hlt heq]
      exact ⟨h', hskip, hlater.imp id (Nat.lt_succ_self h.position).trans⟩
    | false =>
      rw [hh.stop hlt heq]
      exact ⟨_, rfl, .inr (Nat.lt_succ_self h.position)⟩

/-- With the same vector, points that are no interrupts are the same if their records agree. -/
theorem operatorEq_of_agrees {r r' : SyncRecordV2} {p q : SyncPoint} {data data' : List SyncPointData}
    (h : r.Agrees r') (hirq : isIrq r.type = false) (hirq' : isIrq r'.type = false)
    (hvec : (r.widen.point p data).interrupt_vector = (r'.widen.point q data').interrupt_vector) :
    (r.widen.point p data).operatorEq (r'.widen.point q data') = true := by
  have hcompared := (SyncPoint.operatorEq_iff _ _).mp h
  rw [r.widen.point_compared p data, r'.widen.point_compared q data',
    SyncRecordV2.widen_type, SyncRecordV2.widen_type, hirq, hirq'] at hcompared
  rw [SyncPoint.operatorEq_iff]
  exact SyncPoint.eq_of_vector hcompared hvec

/-- An interrupt that is not flagged as one is returned with a stray vector. -/
theorem OldReading.flagged_of_readsSame (hf : OldReading A f) (hpos : f.position = 0)
    (hsame : ∀ s t, (f.withStack s).ReadsSame (f.withStack t)) (h1 : 1 ≤ k) (hk : k ≤ A.count) :
    FlaggedType (A.record k).type := by
  intro hbyte
  by_contra hirq
  rw [Bool.not_eq_true] at hirq
  obtain ⟨j, rfl⟩ : ∃ j, k = j + 1 := ⟨k - 1, by omega⟩
  obtain ⟨p, h, hh, rfl, m, σ, hσ⟩ := hf.arrives hpos j (by omega)
  -- Two vectors other than that of the point before.
  have hgets : ∀ a : UInt8, p.interrupt_vector ≠ a → ∀ t, nexts (m + 1)
      (f.withStack (σ (Stack.push (a, .VMENTER) t))) =
        some ((A.passed h (a, .VMENTER)).withStack t).dropEvent := by
    intro a ha t
    rw [hσ, hh.stop_push hk (OldRecording.nextPoint_ne hirq ha)]
    rfl
  have hcur : ∀ (a : UInt8) t, ((A.passed h (a, .VMENTER)).withStack t).dropEvent.current =
      A.nextPoint h (a, .VMENTER) := by
    intro a t
    rw [SyncFile.dropEvent_eq]
    rfl
  obtain ⟨f₁, f₂, hf₁, hf₂, -, -, hpoint⟩ := hsame (σ (Stack.push (p.interrupt_vector + 1, .VMENTER) f.stack))
    (σ (Stack.push (p.interrupt_vector + 2, .VMENTER) f.stack)) (m + 1)
  rw [hgets _ (by simp)] at hf₁ hf₂
  cases hf₁
  cases hf₂
  rw [hcur, hcur] at hpoint
  have hint : (A.nextPoint h (p.interrupt_vector + 1, .VMENTER)).isInterrupt = true := by
    unfold OldRecording.nextPoint
    rw [SyncRecord.point_isInterrupt, SyncRecord.isInterrupt, SyncRecord.pointType,
      SyncRecordV2.widen_type, hirq, hbyte]
    rfl
  have hvec := hpoint.2 hint
  rw [OldRecording.nextPoint_vector hirq, OldRecording.nextPoint_vector hirq] at hvec
  simp at hvec

/-- A record that agrees with the next one is followed by it or not, as the stray vectors have it. -/
theorem OldReading.distinct_of_readsSame (hf : OldReading A f) (hpos : f.position = 0)
    (hsame : ∀ s t, (f.withStack s).ReadsSame (f.withStack t)) (h1 : 1 ≤ k) (hk : k < A.count)
    (hirq : isIrq (A.record k).type = false) (hirq' : isIrq (A.record (k + 1)).type = false) :
    ¬ (A.record k).Agrees (A.record (k + 1)) := by
  intro hagrees
  obtain ⟨j, rfl⟩ : ∃ j, k = j + 1 := ⟨k - 1, by omega⟩
  obtain ⟨p, h, ha⟩ := hf.arrives hpos j (by omega)
  have hhpos := ha.2.1
  subst hhpos
  obtain ⟨v, hv⟩ : ∃ v : UInt8 × SyncPointType, p.interrupt_vector ≠ v.1 :=
    ⟨(p.interrupt_vector + 1, .VMENTER), by simp⟩
  obtain ⟨hh, hhpos, m, σ, hσ⟩ := ha.stop (by omega) (OldRecording.nextPoint_ne hirq hv)
  have hvec := OldRecording.nextPoint_vector hirq v
  -- The call after that is made on this record, and the next one is read with another temporary.
  generalize (A.passed h v).dropEvent = h' at hh hhpos hσ
  have hlt : h'.position < A.count := by omega
  rw [← hhpos] at hirq'
  -- With the same vector the next record is skipped, and with another one it is returned.
  have hskip : (A.nextPoint h v).operatorEq (A.nextPoint h' v) = true := by
    refine operatorEq_of_agrees (hhpos ▸ hagrees) hirq hirq' ?_
    exact hvec.trans (OldRecording.nextPoint_vector hirq' v).symm
  have hstop : (A.nextPoint h v).operatorEq (A.nextPoint h' (v.1 + 1, .VMENTER)) = false :=
    OldRecording.nextPoint_ne hirq' (by rw [hvec]; simp)
  obtain ⟨f₁, f₂, hf₁, hf₂, hposition, heof, -⟩ := hsame (σ (Stack.push v f.stack))
    (σ (Stack.push (v.1 + 1, .VMENTER) f.stack)) (m + 1)
  obtain ⟨k₁, hk₁, hlater⟩ := OldReading.skipIdentical (A.nextPoint h v) _ _
    ((hh.passed hlt v).withStack f.stack) rfl
  rw [hσ, hh.skip_push hlt hskip, hk₁] at hf₁
  rw [hσ, hh.stop_push hlt hstop] at hf₂
  cases hf₁
  cases hf₂
  have hreturned := ((hh.passed hlt (v.1 + 1, .VMENTER)).withStack f.stack).dropEvent.eof
  rw [hreturned, SyncFile.dropEvent_eof] at heof
  rw [SyncFile.dropEvent_position, SyncFile.dropEvent_position] at hposition
  rcases hlater with hend | hlater
  · rw [heof] at hend
    cases hend
  · exact absurd hposition (ne_of_gt hlater)

/-! ## Loading -/

/-- A freshly loaded reader stands at the first record. -/
theorem OldRecording.LoadedOn.reading {data : Option (List UInt8)} (hf : A.LoadedOn data f) :
    OldReading A f ∧ f.position = 0 ∧ f.current = {} := by
  obtain ⟨u, hload⟩ := hf
  have hrs : headerRecordSize A.content ≠ 0 := by
    rw [A.record_size_eq]
    decide
  rw [load_of_header A.header, if_neg hrs] at hload
  -- Only the data file depends on the version.
  obtain ⟨hd, hfields⟩ : (∃ dc, Healthy dc f.data_file) ∧
      f = { (SyncFile.new u).onHeader A.content with data_file := f.data_file } := by
    split_ifs at hload with hv
    · cases hload
      exact ⟨⟨[], .inl rfl⟩, rfl⟩
    · obtain ⟨-, hd, hf⟩ := loadData_returned hload
      exact ⟨⟨_, hd⟩, hf⟩
  have hposition : f.position = 0 := congrArg SyncFile.position hfields
  have hfile : f.file = openAt A.content HEADER_SIZE := congrArg SyncFile.file hfields
  have hversion : f.version = headerVersion A.content := congrArg SyncFile.version hfields
  refine ⟨⟨?_, ?_, ?_, hd⟩, hposition, congrArg SyncFile.current hfields⟩
  · rw [hposition, hfile]
    rfl
  · rw [hversion]
    exact A.version_lt
  · rw [hposition]
    exact Nat.zero_le _

/-- For every file of a version below 3 and every reader on which it was loaded, with or without a data
file: what `next()` gives does not depend on the memory of the temporary points exactly when every
interrupt is flagged as one, and no other record agrees with the one after it. -/
theorem reads_same_iff (A : OldRecording) (data : Option (List UInt8)) (f : SyncFile)
    (hf : A.LoadedOn data f) :
    (∀ s t : Stack, (f.withStack s).ReadsSame (f.withStack t)) ↔ A.Plain := by
  obtain ⟨hreading, hpos, hcur⟩ := hf.reading
  constructor
  · intro hsame
    have hflagged : ∀ k, 1 ≤ k → k ≤ A.count → FlaggedType (A.record k).type :=
      fun k h1 hk => hreading.flagged_of_readsSame hpos hsame h1 hk
    refine ⟨hflagged, fun k h1 hk hirq hagrees => ?_⟩
    have hwide : ∀ j, 1 ≤ j → j ≤ A.count → FlaggedType (A.record j).widen.type := hflagged
    have htype := SyncPoint.operatorEq_type hagrees
    rw [SyncRecord.point_type, SyncRecord.point_type] at htype
    have heq := (hwide k h1 hk.le).isIrq_eq (hwide (k + 1) (Nat.le_add_left 1 k) hk) htype
    have hirq' : isIrq (A.record (k + 1)).widen.type = false := heq.symm.trans hirq
    exact hreading.distinct_of_readsSame hpos hsame h1 hk hirq hirq' hagrees
  · intro hA s t
    refine Together.readsSame hA (.before ⟨hreading.withStack s, hreading.withStack t, rfl, rfl⟩
      (SamePoint.refl _) (.inl hcur) (.inl hcur))

end

/-! ## Two recordings -/

/-- A version-2 recording whose records have TSCs. -/
def RecordingV2.old (A : RecordingV2) (htsc : ∀ k, 1 ≤ k → k ≤ A.count → (A.record k).tsc ≠ 0) :
    OldRecording where
  content := A.content
  count := A.count
  size_lt := A.size_lt
  header := by
    have hlength := A.length_eq
    unfold HEADER_SIZE at hlength
    refine ⟨by omega, ?_, by rw [A.version_eq]; decide⟩
    rw [A.magic_eq, UInt64.ofNat_toNat]
  version_lt := by
    unfold headerVersion
    rw [A.version_eq]
    decide
  record_size_eq := by
    unfold headerRecordSize
    rw [A.record_size_eq]
    rfl
  length_eq := A.length_eq
  tsc_ne := by
    intro k hk h0
    refine htsc (k + 1) (Nat.le_add_left 1 k) hk ?_
    show UInt64.ofNat (leAt A.content (offset k) 8) = 0
    rw [h0]
    rfl

/-- The recording of a sequence of 32-bit records. -/
def OldRecording.ofRecords (rs : List SyncRecordV2) (htsc : ∀ r ∈ rs, r.tsc ≠ 0)
    (hlen : rs.length ≤ 2 ^ 32) : OldRecording :=
  (RecordingV2.ofRecords rs hlen).old fun k h1 hk => by
    obtain ⟨i, rfl⟩ : ∃ i, k = i + 1 := ⟨k - 1, by omega⟩
    rw [RecordingV2.ofRecords_record hk]
    exact htsc _ (List.getElem_mem hk)

theorem OldRecording.ofRecords_record {rs : List SyncRecordV2} {htsc : ∀ r ∈ rs, r.tsc ≠ 0}
    {hlen : rs.length ≤ 2 ^ 32} {i : ℕ} (h : i < rs.length) :
    (ofRecords rs htsc hlen).record (i + 1) = rs[i] := by
  show (RecordingV2.ofRecords rs hlen).record (i + 1) = rs[i]
  exact RecordingV2.ofRecords_record h

theorem OldRecording.exists_loaded (rs : List SyncRecordV2) (htsc : ∀ r ∈ rs, r.tsc ≠ 0)
    (hlen : rs.length ≤ 2 ^ 32) : ∃ f, (ofRecords rs htsc hlen).LoadedOn none f :=
  LoadedV2.exists_no_data (.ofRecords rs hlen)

theorem RecordingV2.Plain.old {A : RecordingV2} (hA : A.Plain)
    (htsc : ∀ k, 1 ≤ k → k ≤ A.count → (A.record k).tsc ≠ 0) : (A.old htsc).Plain :=
  ⟨hA.flagged, fun k h1 hk _ => hA.distinct k h1 hk⟩

/-- On the recording of a VMExit and an interrupt, what `next()` gives does not depend on the memory. -/
theorem reads_same_iff_two : ∃ (A : OldRecording) (f : SyncFile), A.LoadedOn none f ∧
    ∀ s t : Stack, (f.withStack s).ReadsSame (f.withStack t) := by
  obtain ⟨f, hf⟩ := OldRecording.exists_loaded exitThenInterrupt (by decide) (by decide)
  exact ⟨_, f, hf, (reads_same_iff _ none f hf).mpr (exitThenInterrupt_plain.old _)⟩

/-- The same VMExit, twice. -/
def exitTwice : List SyncRecordV2 :=
  [{ zeroRecordV2 with tsc := 1, type := 0x0a }, { zeroRecordV2 with tsc := 1, type := 0x0a }]

/-- On the recording of the same VMExit twice, it does. -/
theorem reads_not_same : ¬ ∀ (A : OldRecording) (data : Option (List UInt8)) (f : SyncFile),
    A.LoadedOn data f → ∀ s t : Stack, (f.withStack s).ReadsSame (f.withStack t) := by
  intro halways
  obtain ⟨f, hf⟩ := OldRecording.exists_loaded exitTwice (by decide) (by decide)
  obtain ⟨hreading, hpos, -⟩ := hf.reading
  refine hreading.distinct_of_readsSame hpos (halways _ none f hf) (k := 0 + 1) (by decide)
    (show 1 < 2 by decide) ?_ ?_ ?_
  · rw [OldRecording.ofRecords_record (by decide)]
    decide
  · rw [OldRecording.ofRecords_record (by decide)]
    decide
  · rw [OldRecording.ofRecords_record (by decide), OldRecording.ofRecords_record (by decide)]
    unfold SyncRecordV2.Agrees
    decide

end RvnSyncPoint
