import RvnSyncPoint.Sync.Encode
import RvnSyncPoint.Sync.RecordV2

/-!
# The old and the new format

The same sequence of 32-bit records in a version-2 file and, widened, in a version-3 file. The readers
of the two are `Twins` as long as they are at the same position, on the same point up to the interrupt
vector of what is not an interrupt, and have the same data file. `next()` and `seek()` keep them so:
no two adjacent records are the same to `operator==`, so neither reader ever skips one, whatever
vectors it holds. So after every sequence of moves the two agree (`formats_agree`).
-/

namespace RvnSyncPoint

open LittleEndian Loop StreamableFile

/-- A new reader on which the version-2 file was loaded. -/
def LoadedV2 (A : RecordingV2) (data : Option (List UInt8)) (f : SyncFile) : Prop :=
  ∃ u, (SyncFile.new u).load (some A.content) data = .returned true f

/-- The records are the same for all that `operator==` compares in the points that they make, where the
interrupt vector only counts for interrupts. -/
def SyncRecordV2.Agrees (r r' : SyncRecordV2) : Prop :=
  (r.widen.point {} []).operatorEq (r'.widen.point {} []) = true

/-- The type word is not one of an interrupt without the flag. -/
def FlaggedType (type : UInt16) : Prop := irqByte type = 0xfe → isIrq type = true

/-- The records have proper type words, and no two adjacent ones agree. -/
structure RecordingV2.Plain (A : RecordingV2) : Prop where
  flagged : ∀ k, 1 ≤ k → k ≤ A.count → FlaggedType (A.record k).type
  distinct : ∀ k, 1 ≤ k → k < A.count → ¬ (A.record k).Agrees (A.record (k + 1))

/-- The version-3 file `B` has the records of the version-2 file `A`. -/
structure Rewrites (A : RecordingV2) (B : Recording) : Prop where
  count : B.count = A.count
  record : ∀ k, 1 ≤ k → k ≤ A.count → B.record k = (A.record k).widen

/-- The same point, up to the interrupt vector of what is not an interrupt. -/
def SamePoint (p q : SyncPoint) : Prop :=
  { p with interrupt_vector := 0 } = { q with interrupt_vector := 0 } ∧
    (p.isInterrupt = true → p.interrupt_vector = q.interrupt_vector)

/-- A read that leaves the reader somewhere. -/
inductive Move where
  | next
  | seek (position : ℕ)

/-- Makes a move. -/
def Move.run (f : SyncFile) : Move → Option SyncFile
  | .next => f.next
  | .seek q => f.seek q

/-- Makes a sequence of moves. -/
def Move.runs : List Move → SyncFile → Option SyncFile
  | [], f => some f
  | m :: ms, f => do runs ms (← m.run f)

/-- The move is `next()`, or seeks to a position from 0 to the number of records. -/
def Move.InFile (n : ℕ) : Move → Prop
  | .next => True
  | .seek q => q ≤ n

/-! ## Points of a record -/

section

variable {r r' : SyncRecord} {p q : SyncPoint}

theorem SamePoint.refl (p : SyncPoint) : SamePoint p p := ⟨rfl, fun _ => rfl⟩

/-- What a record makes of two points is the same, if its type word is proper. -/
theorem FlaggedType.samePoint (h : FlaggedType r.type) (p q : SyncPoint)
    (data : List SyncPointData) : SamePoint (r.point p data) (r.point q data) := by
  unfold SyncRecord.point SyncPoint.storeType
  cases hirq : isIrq r.type with
  | true => exact SamePoint.refl _
  | false =>
    refine ⟨rfl, fun hint => ?_⟩
    -- It is no interrupt, as the flag is not there.
    have hbyte : irqByte r.type = 0xfe := congrArg SyncPointType.value (of_decide_eq_true hint)
    rw [h hbyte] at hirq
    cases hirq

/-- What `operator==` compares of a record's point, when the vector of the point before is blank. -/
theorem SyncRecord.point_compared (r : SyncRecord) (p : SyncPoint) (data : List SyncPointData) :
    (r.point {} []).compared =
      if isIrq r.type then (r.point p data).compared
      else { (r.point p data).compared with interrupt_vector := 0 } := by
  unfold SyncRecord.point SyncPoint.storeType
  cases isIrq r.type with
  | true => rfl
  | false => rfl

/-- Points of the same type come of type words that both have the interrupt flag, or both have not. -/
theorem FlaggedType.isIrq_eq (h : FlaggedType r.type) (h' : FlaggedType r'.type)
    (htype : r.pointType = r'.pointType) : isIrq r.type = isIrq r'.type := by
  unfold SyncRecord.pointType at htype
  cases hirq : isIrq r.type with
  | true =>
    rw [hirq] at htype
    cases hirq' : isIrq r'.type with
    | true => rfl
    | false =>
      rw [hirq'] at htype
      have hbyte : irqByte r'.type = 0xfe := (congrArg SyncPointType.value htype).symm
      exact (h' hbyte).symm.trans hirq'
  | false =>
    rw [hirq] at htype
    cases hirq' : isIrq r'.type with
    | false => rfl
    | true =>
      rw [hirq'] at htype
      have hbyte : irqByte r.type = 0xfe := congrArg SyncPointType.value htype
      exact hirq.symm.trans (h hbyte)

/-- If `operator==` does not distinguish the points of two records, whatever vectors and data they hold,
it does not distinguish the records. -/
theorem operatorEq_point_default (h : FlaggedType r.type) (h' : FlaggedType r'.type)
    {data data' : List SyncPointData}
    (heq : (r.point p data).operatorEq (r'.point q data') = true) :
    (r.point {} []).operatorEq (r'.point {} []) = true := by
  have htype := SyncPoint.operatorEq_type heq
  rw [SyncRecord.point_type, SyncRecord.point_type] at htype
  rw [SyncPoint.operatorEq_iff] at heq ⊢
  rw [r.point_compared p data, r'.point_compared q data', h.isIrq_eq h' htype, heq]

end

/-! ## Twins -/

/-- The point of a reader at the position `p`: the default one, or the one read last. -/
def RecordingV2.LastPoint (A : RecordingV2) (p : ℕ) (c : SyncPoint) : Prop :=
  c = {} ∨ 1 ≤ p ∧ ∃ q data, c = (A.record p).widen.point q data

/-- The two readers stand before the same record, or have both met the end of their files. -/
inductive Place (A : RecordingV2) (B : Recording) (f g : SyncFile) : Prop
  | before (old_file : f.file = openAt A.content (RecordingV2.offset f.position))
    (file : g.file = openAt B.content (B.offset g.position)) (le_count : f.position ≤ A.count)
    (old_last : A.LastPoint f.position f.current) (last : A.LastPoint g.position g.current)
  | ended (old_eof : f.eof = true) (eof : g.eof = true)

/-- A reader of the version-2 file and one of the version-3 file that do not differ to a client. -/
structure Twins (A : RecordingV2) (B : Recording) (f g : SyncFile) : Prop extends Attached B g where
  old_on : On A.content f.file
  old_version : f.version = 2
  old_record_size : f.record_size = 80
  data_file : f.data_file = g.data_file
  position : f.position = g.position
  current : SamePoint f.current g.current
  place : Place A B f g

section

variable {A : RecordingV2} {B : Recording} {f g : SyncFile}

theorem Twins.eof (h : Twins A B f g) : f.eof = g.eof := by
  cases h.place with
  | before old_file file le_count old_last last =>
    rw [SyncFile.eof, SyncFile.eof, old_file, file]
    rfl
  | ended old_eof eof => rw [old_eof, eof]

/-- A record is distinguished from the point before it. -/
theorem RecordingV2.LastPoint.operatorEq (hA : A.Plain) (hAB : Rewrites A B) {p : ℕ} {c : SyncPoint}
    (h : A.LastPoint p c) (hp : p < A.count) (q : SyncPoint) (data : List SyncPointData) :
    c.operatorEq ((A.record (p + 1)).widen.point q data) = false := by
  apply Bool.eq_false_of_not_eq_true
  intro heq
  rcases h with rfl | ⟨h1, q', data', rfl⟩
  · -- The default point has a zero TSC.
    have htsc := congrArg SyncPoint.tsc ((SyncPoint.operatorEq_iff _ _).mp heq)
    have hne := B.record_tsc (Nat.le_add_left 1 p) (by rw [hAB.count]; exact hp)
    rw [hAB.record _ (Nat.le_add_left 1 p) hp] at hne
    apply hne
    rw [← SyncRecord.point_tsc (A.record (p + 1)).widen q data]
    exact htsc.symm
  · exact hA.distinct p h1 hp (operatorEq_point_default (hA.flagged p h1 (by omega))
      (hA.flagged (p + 1) (Nat.le_add_left 1 p) hp) heq)

/-- What a pass of the read loops leaves of two twins: both read the same record, which neither skips, or
both meet the end. -/
def PassTogether (A : RecordingV2) (B : Recording) (f g : SyncFile) : Prop :=
  ∃ f' g', f.readPass = some f' ∧ g.readPass = some g' ∧ Twins A B f' g' ∧
    (f.current.operatorEq f'.current && !f'.eof) = false ∧
    (g.current.operatorEq g'.current && !g'.eof) = false

/-- A pass where there is a record to read. -/
theorem Twins.readPass_lt (hA : A.Plain) (hAB : Rewrites A B) (h : Twins A B f g)
    (old_file : f.file = openAt A.content (RecordingV2.offset f.position))
    (file : g.file = openAt B.content (B.offset g.position))
    (old_last : A.LastPoint f.position f.current) (last : A.LastPoint g.position g.current)
    (hlt : f.position < A.count) : PassTogether A B f g := by
  obtain ⟨dc, hd⟩ := h.data
  have hpos := h.position
  have h1 : 1 ≤ f.position + 1 := Nat.le_add_left 1 _
  have hmod : (f.position + 1) % 2 ^ 64 = f.position + 1 := by
    have := A.count_lt
    omega
  -- The old reader extracts the record into a temporary point.
  have hpass := readPass_openAt_v2 old_file (by rw [h.old_version]; decide)
    (by rw [← RecordingV2.offset_succ]; exact A.offset_le hlt) (h.data_file ▸ hd)
  rw [show recordV2At A.content (RecordingV2.offset f.position) = A.record (f.position + 1) from rfl,
    hmod] at hpass
  -- The new one extracts the widened record into its current point.
  obtain ⟨g', hpass', hg', hgfile, hgpos, hgcur, hgdata, -, -⟩ := h.toAttached.readPass file (by
    rw [h.record_size, ← B.offset_succ, ← B.offset_count, ← hpos, hAB.count]
    exact B.offset_mono hlt)
  rw [← hpos, show recordAt B.content (B.offset f.position) = B.record (f.position + 1) from rfl,
    hAB.record _ h1 hlt, ← h.data_file] at hgcur hgdata
  rw [← hpos, hmod] at hgpos
  have hplace : Place A B _ g' := .before (f := { f with
        file := openAt A.content (RecordingV2.offset f.position + 80)
        current := (A.record (f.position + 1)).widen.point (strayVector (f.stack 0))
          (dataAt (A.record (f.position + 1)).data_offset f.data_file).1
        data_file := (dataAt (A.record (f.position + 1)).data_offset f.data_file).2
        position := f.position + 1
        stack := fun i => f.stack (i + 1) })
    (by rw [← RecordingV2.offset_succ])
    (by rw [hgfile, hgpos, B.offset_succ, hpos, h.record_size])
    hlt (.inr ⟨h1, _, _, rfl⟩) (.inr ⟨hgpos ▸ h1, g.current, _, by rw [hgcur, hgpos]⟩)
  refine ⟨_, g', hpass, hpass', ⟨hg', openAt_on _ _, h.old_version, h.old_record_size, hgdata.symm,
    hgpos.symm, ?_, hplace⟩, ?_, ?_⟩
  · have hflagged : FlaggedType (A.record (f.position + 1)).widen.type := hA.flagged _ h1 hlt
    rw [hgcur]
    exact hflagged.samePoint _ _ _
  · rw [old_last.operatorEq hA hAB hlt, Bool.false_and]
  · rw [← hpos] at last
    rw [hgcur, last.operatorEq hA hAB hlt, Bool.false_and]

/-- A pass after the last record, where both meet the end of their files. -/
theorem Twins.readPass_count (hAB : Rewrites A B) (h : Twins A B f g)
    (old_file : f.file = openAt A.content (RecordingV2.offset f.position))
    (file : g.file = openAt B.content (B.offset g.position)) (hcount : f.position = A.count) :
    PassTogether A B f g := by
  have hend : A.content.length ≤ RecordingV2.offset f.position := by
    rw [hcount, A.length_eq]
    exact le_rfl
  have hend' : B.content.length ≤ B.offset g.position := by
    rw [← h.position, hcount, ← hAB.count, B.offset_count]
  refine ⟨_, _, readPass_end_v2 old_file (by rw [h.old_version]; decide) hend, readPass_end file h.version hend',
    ⟨⟨endAt_on _ _, h.version, h.record_size, h.sync_point_count, h.data⟩, endAt_on _ _,
      h.old_version, h.old_record_size, h.data_file, h.position, ⟨rfl, fun hint => ?_⟩,
      .ended rfl rfl⟩, Bool.and_false _, Bool.and_false _⟩
  cases hint

/-- What the two readers hold besides does not matter. -/
theorem Twins.update (h : Twins A B f g) (e e' : SyncEvent) (p p' : ℕ) :
    Twins A B { f with current_event := e, last_valid_position := p }
      { g with current_event := e', last_valid_position := p' } := by
  obtain ⟨⟨hon, hversion, hrs, hcount, hd⟩, hold, hv, hr, hdata, hpos, hcur, hplace⟩ := h
  refine ⟨⟨hon, hversion, hrs, hcount, hd⟩, hold, hv, hr, hdata, hpos, hcur, ?_⟩
  cases hplace with
  | before old_file file le_count old_last last => exact .before old_file file le_count old_last last
  | ended old_eof eof => exact .ended old_eof eof

/-- `next()` keeps two readers twins. -/
theorem Twins.next (hA : A.Plain) (hAB : Rewrites A B) (h : Twins A B f g) :
    ∃ f' g', f.next = some f' ∧ g.next = some g' ∧ Twins A B f' g' := by
  have heq := h.eof
  cases heof : f.eof with
  | true =>
    rw [heof] at heq
    exact ⟨f, g, by rw [SyncFile.next, if_pos heof], by rw [SyncFile.next, if_pos heq.symm], h⟩
  | false =>
    rw [heof] at heq
    -- The read loops leave after one pass each, as no record is the same as the one before it.
    have htogether : PassTogether A B f g := by
      cases h.place with
      | ended old_eof eof =>
        rw [heof] at old_eof
        cases old_eof
      | before old_file file le_count old_last last =>
        rcases Nat.lt_or_eq_of_le le_count with hlt | hcount
        · exact h.readPass_lt hA hAB old_file file old_last last hlt
        · exact h.readPass_count hAB old_file file hcount
    obtain ⟨f', g', hpass, hpass', h', hstop, hstop'⟩ := htogether
    have hskip : SyncFile.skipIdentical f.current f = some f' :=
      loop_leave (by simp only [hpass, Option.bind_eq_bind, Option.bind_some, hstop]; rfl)
    have hskip' : SyncFile.skipIdentical g.current g = some g' :=
      loop_leave (by simp only [hpass', Option.bind_eq_bind, Option.bind_some, hstop']; rfl)
    refine ⟨f'.dropEvent, g'.dropEvent, by rw [SyncFile.next, heof, hskip]; rfl,
      by rw [SyncFile.next, ← heq, hskip']; rfl, ?_⟩
    rw [SyncFile.dropEvent_eq, SyncFile.dropEvent_eq]
    exact h'.update _ _ _ _

/-- So does a seek from the first record, or before it, to the last. -/
theorem Twins.seek (hA : A.Plain) (hAB : Rewrites A B) (h : Twins A B f g) {q : ℕ} (hq : q ≤ A.count) :
    ∃ f' g', f.seek q = some f' ∧ g.seek q = some g' ∧ Twins A B f' g' := by
  have hne : f.record_size ≠ 0 := by
    rw [h.old_record_size]
    decide
  have hsize := A.size_lt
  have hlen := A.length_eq
  -- At zero nothing is read, and both have the default point.
  rcases Nat.eq_zero_or_pos q with rfl | hpos
  · obtain ⟨g', hseek', hreading, hgpos, hgcur, -, -, hgdata⟩ := seek_zero h.toAttached
    have hfile : f.file.seek HEADER_SIZE = openAt A.content (RecordingV2.offset 0) :=
      h.old_on.seek (by decide)
    have hseek : f.seek 0 = some { f with
        last_valid_position := 0, current := {}, file := f.file.seek HEADER_SIZE, position := 0 } := by
      rw [SyncFile.seek, if_neg hne, if_pos rfl]
    have hold : On A.content (f.file.seek HEADER_SIZE) := hfile ▸ openAt_on _ _
    refine ⟨_, g', hseek, hseek', ⟨hreading.toAttached, hold, h.old_version, h.old_record_size,
      h.data_file.trans hgdata.symm, hgpos.symm, hgcur ▸ SamePoint.refl _, ?_⟩⟩
    exact .before hfile hreading.file (Nat.zero_le _) (.inl rfl) (.inl hgcur)
  · -- The two streams are put at the offsets of the same record, each in its own stride.
    have hold : (f.placed q).file = openAt A.content (RecordingV2.offset (q - 1)) := by
      have hoff : (HEADER_SIZE + f.record_size.toNat * (q - 1)) % 2 ^ 64 =
          RecordingV2.offset (q - 1) := by
        rw [h.old_record_size]
        exact Nat.mod_eq_of_lt (by show HEADER_SIZE + 80 * (q - 1) < 2 ^ 64; omega)
      have hlt : RecordingV2.offset (q - 1) < 2 ^ 63 :=
        lt_of_le_of_lt (A.offset_le (by omega)) hsize
      show f.file.seek _ = _
      rw [hoff]
      exact h.old_on.seek hlt
    have hnew : (g.placed q).file = openAt B.content (B.offset (q - 1)) :=
      placed_file h.toAttached (B.offset_lt (by rw [hAB.count]; omega))
    have hplaced : Twins A B (f.placed q) (g.placed q) := by
      refine ⟨⟨?_, h.version, h.record_size, h.sync_point_count, h.data⟩, ?_, h.old_version,
        h.old_record_size, h.data_file, rfl, SamePoint.refl _,
        .before hold hnew (by show q - 1 ≤ A.count; omega) (.inl rfl) (.inl rfl)⟩
      · rw [hnew]
        exact openAt_on _ _
      · rw [hold]
        exact openAt_on _ _
    obtain ⟨f', g', hf', hg', h'⟩ := hplaced.next hA hAB
    exact ⟨_, _, by rw [seek_placed hne (by omega), hf']; rfl,
      by rw [seek_eq h.toAttached (by omega), hg']; rfl, h'.update _ _ _ _⟩

/-- So does every sequence of moves. -/
theorem Twins.runs (hA : A.Plain) (hAB : Rewrites A B) (moves : List Move)
    (hmoves : ∀ m ∈ moves, m.InFile A.count) : ∀ f g, Twins A B f g →
    ∃ f' g', Move.runs moves f = some f' ∧ Move.runs moves g = some g' ∧ Twins A B f' g' := by
  induction moves with
  | nil => exact fun f g h => ⟨f, g, rfl, rfl, h⟩
  | cons m ms ih =>
    intro f g h
    obtain ⟨hm, hms⟩ := List.forall_mem_cons.mp hmoves
    have hstep : ∃ f' g', m.run f = some f' ∧ m.run g = some g' ∧ Twins A B f' g' := by
      cases m with
      | next => exact h.next hA hAB
      | seek q => exact h.seek hA hAB hm
    obtain ⟨f', g', hf', hg', h'⟩ := hstep
    obtain ⟨f'', g'', hf'', hg'', h''⟩ := ih hms f' g' h'
    exact ⟨f'', g'', by rw [Move.runs, hf']; exact hf'', by rw [Move.runs, hg']; exact hg'', h''⟩

/-! ## Loading -/

/-- What `load` makes of the data file of a new reader does not depend on the reader. -/
theorem loadData_data_file {data : Option (List UInt8)} {b b' : Bool} {f' g' : SyncFile}
    (hf : f.data_file = .new b) (hg : g.data_file = .new b')
    (hf' : f.loadData data = .returned true f') (hg' : g.loadData data = .returned true g') :
    f'.data_file = g'.data_file := by
  have hsame : f.data_file.load data = g.data_file.load data := by
    rw [hf, hg]
    rfl
  unfold SyncFile.loadData at hf' hg'
  rw [hsame] at hf'
  dsimp only at hf' hg'
  split_ifs at hf' hg'
  · cases hf'
    cases hg'
    rfl
  · cases hf'
    cases hg'
    rfl

/-- `load` accepts the header of a version-2 recording. -/
theorem load_recordingV2 (A : RecordingV2) (f : SyncFile) (data : Option (List UInt8)) :
    f.load (some A.content) data = SyncFile.loadData data { f with
      file := openAt A.content (RecordingV2.offset 0), position := 0, version := 2
      record_size := 80, sync_point_count := A.count } := by
  have hlength := A.length_eq
  have hlen : 20 ≤ A.content.length := by
    unfold HEADER_SIZE at hlength
    omega
  have hversion : leAt A.content 8 4 = (2 : UInt32).toNat := A.version_eq
  have hrs : leAt A.content 16 4 = (80 : UInt32).toNat := A.record_size_eq
  rw [load_header f data hlen A.magic_eq hversion hrs (by decide) (by decide) (by decide),
    pos_div_count A.size_lt hlength (by decide)]
  rfl

/-- Freshly loaded readers of the two files are twins. -/
theorem LoadedV2.twins {data : Option (List UInt8)} (hf : LoadedV2 A data f) (hg : Loaded B data g) :
    Twins A B f g := by
  have hreading := hg.reading
  obtain ⟨hgpos, hgcur, -, -⟩ := hg.fields
  obtain ⟨u, hu⟩ := hf
  obtain ⟨u', hu'⟩ := hg
  rw [load_recordingV2] at hu
  rw [load_recording] at hu'
  have hdata := loadData_data_file rfl rfl hu hu'
  obtain ⟨-, -, hf⟩ := loadData_returned hu
  have hfile : f.file = openAt A.content (RecordingV2.offset 0) := congrArg SyncFile.file hf
  have hcur : f.current = {} := congrArg SyncFile.current hf
  have hpos : f.position = 0 := congrArg SyncFile.position hf
  refine ⟨hreading.toAttached, hfile ▸ openAt_on _ _, congrArg SyncFile.version hf,
    congrArg SyncFile.record_size hf, hdata, hpos.trans hgpos.symm, ?_, ?_⟩
  · rw [hcur, hgcur]
    exact SamePoint.refl _
  · exact .before (hpos ▸ hfile) hreading.file (hpos ▸ Nat.zero_le _) (.inl hcur) (.inl hgcur)

end

/-! ## Writing both formats -/

/-- The fields of a 32-bit record, in the order of the file: the width and the value of each. -/
def SyncRecordV2.fields (r : SyncRecordV2) : List (ℕ × ℕ) :=
  [(8, r.tsc.toNat), (2, r.type.toNat), (2, r.cs.toNat),
    (4, r.eax.toNat), (4, r.ebx.toNat), (4, r.ecx.toNat), (4, r.edx.toNat),
    (4, r.esi.toNat), (4, r.edi.toNat), (4, r.ebp.toNat), (4, r.esp.toNat),
    (4, r.eip.toNat), (4, r.eflags.toNat),
    (4, r.cr0.toNat), (4, r.cr2.toNat), (4, r.cr3.toNat), (4, r.cr4.toNat),
    (4, r.data_offset.toNat), (2, r.fpu_sw.toNat), (2, r.fpu_cw.toNat), (1, r.fpu_tags.toNat),
    (2, r.fault_error_code.toNat)]

/-- The bytes of a 32-bit record, with its byte of padding. -/
def SyncRecordV2.bytes (r : SyncRecordV2) : List UInt8 :=
  (r.fields.flatMap fun field => toBytes field.1 field.2) ++ [0]

theorem SyncRecordV2.length_bytes (r : SyncRecordV2) : r.bytes.length = 80 := by
  simp [bytes, fields]

/-- A record is read back as it was written. -/
theorem recordV2At_bytes (r : SyncRecordV2) (rest : List UInt8) :
    recordV2At (r.bytes ++ rest) 0 = r := by
  have h8 : ∀ x : UInt64, x.toNat < 256 ^ 8 := fun x => x.toNat_lt
  have h4 : ∀ x : UInt32, x.toNat < 256 ^ 4 := fun x => x.toNat_lt
  have h2 : ∀ x : UInt16, x.toNat < 256 ^ 2 := fun x => x.toNat_lt
  have h1 : ∀ x : UInt8, x.toNat < 256 ^ 1 := fun x => x.toNat_lt
  simp only [recordV2At, SyncRecordV2.bytes, SyncRecordV2.fields, List.flatMap_cons,
    List.append_assoc, Nat.zero_add]
  simp (disch := decide) only [leAt_toBytes_append_of_le, Nat.reduceSub]
  simp only [leAt_toBytes_append _ (h8 _), leAt_toBytes_append _ (h4 _),
    leAt_toBytes_append _ (h2 _), leAt_toBytes_append _ (h1 _), UInt64.ofNat_toNat,
    UInt32.ofNat_toNat, UInt16.ofNat_toNat, UInt8.ofNat_toNat]

theorem recordV2At_append_right (a b : List UInt8) (o : ℕ) :
    recordV2At (a ++ b) (a.length + o) = recordV2At b o := by
  unfold recordV2At
  simp only [Nat.add_assoc, leAt_append_right]

/-- The header of a version-2 recording, which is filled with zeros. -/
def headerV2 : List UInt8 :=
  toBytes 8 SYNC_POINT_MAGIC.toNat ++ (toBytes 4 2 ++ (toBytes 4 0 ++ (toBytes 4 80 ++
    List.replicate 1004 0)))

theorem length_headerV2 : headerV2.length = HEADER_SIZE := by
  simp only [headerV2, List.length_append, length_toBytes, List.length_replicate]
  rfl

/-- The version-2 recording of a sequence of records. -/
def RecordingV2.ofRecords (rs : List SyncRecordV2) (hlen : rs.length ≤ 2 ^ 32) : RecordingV2 where
  content := headerV2 ++ rs.flatMap SyncRecordV2.bytes
  count := rs.length
  size_lt := by
    rw [List.length_append, length_headerV2, length_flatMap_encode SyncRecordV2.length_bytes]
    unfold HEADER_SIZE
    omega
  magic_eq := by
    rw [headerV2, List.append_assoc]
    exact leAt_toBytes_append _ (by decide)
  version_eq := by
    simp only [headerV2, List.append_assoc]
    rw [leAt_toBytes_append_of_le _ (by decide)]
    exact leAt_toBytes_append _ (by decide)
  record_size_eq := by
    simp only [headerV2, List.append_assoc]
    simp (disch := decide) only [leAt_toBytes_append_of_le, Nat.reduceSub]
    exact leAt_toBytes_append _ (by decide)
  length_eq := by
    rw [List.length_append, length_headerV2, length_flatMap_encode SyncRecordV2.length_bytes]

/-- The records of the recording of a sequence are those of the sequence. -/
theorem RecordingV2.ofRecords_record {rs : List SyncRecordV2} {hlen : rs.length ≤ 2 ^ 32} {i : ℕ}
    (h : i < rs.length) : (ofRecords rs hlen).record (i + 1) = rs[i] := by
  have hrecord := decode_flatMap_encode recordV2At_append_right SyncRecordV2.length_bytes
    recordV2At_bytes rs i h
  rw [← recordV2At_append_right headerV2, length_headerV2] at hrecord
  exact hrecord

/-- Every sequence of 32-bit records has a version-2 file, and a version-3 file of the widened records. -/
theorem ofRecords_rewrites (rs : List SyncRecordV2) (hlen : rs.length ≤ 2 ^ 32)
    (htsc : ∀ r ∈ rs.map SyncRecordV2.widen, r.tsc ≠ 0)
    (hlen' : (rs.map SyncRecordV2.widen).length ≤ 2 ^ 32) :
    Rewrites (.ofRecords rs hlen) (.ofRecords (rs.map SyncRecordV2.widen) htsc hlen') := by
  refine ⟨List.length_map _, fun k h1 hk => ?_⟩
  obtain ⟨i, rfl⟩ : ∃ i, k = i + 1 := ⟨k - 1, by omega⟩
  have hi : i < rs.length := hk
  rw [RecordingV2.ofRecords_record hi,
    Recording.ofRecords_record (show i < (rs.map SyncRecordV2.widen).length by simpa using hi),
    List.getElem_map]

/-! ## Agreement -/

/-- The version-2 file of a sequence of 32-bit records and the version-3 file of the widened ones, opened
with the same data file: after every sequence of moves, the two readers are at the same position, both
or neither at the end of the file, and on the same point. -/
theorem formats_agree (A : RecordingV2) (B : Recording) (data : Option (List UInt8)) (f g : SyncFile)
    (moves : List Move) (hA : A.Plain) (hAB : Rewrites A B) (hf : LoadedV2 A data f)
    (hg : Loaded B data g) (hmoves : ∀ m ∈ moves, m.InFile A.count) :
    ∃ f' g', Move.runs moves f = some f' ∧ Move.runs moves g = some g' ∧
      f'.position = g'.position ∧ f'.eof = g'.eof ∧ SamePoint f'.current g'.current := by
  obtain ⟨f', g', hf', hg', h⟩ := (hf.twins hg).runs hA hAB moves hmoves
  exact ⟨f', g', hf', hg', h.position, h.eof, h.current⟩

theorem LoadedV2.exists_no_data (A : RecordingV2) : ∃ f, LoadedV2 A none f := by
  have hload := load_recordingV2 A (.new ⟨false, false, 0, 0, fun _ => (0, .VMENTER)⟩) none
  unfold SyncFile.loadData at hload
  rw [if_pos (load_none_eof _)] at hload
  exact ⟨_, _, hload⟩

/-- A VMExit, and an interrupt. -/
def exitThenInterrupt : List SyncRecordV2 :=
  [{ zeroRecordV2 with tsc := 1, type := 0x0a }, { zeroRecordV2 with tsc := 2, type := 0x120 }]

theorem exitThenInterrupt_plain : (RecordingV2.ofRecords exitThenInterrupt (by decide)).Plain := by
  have hflagged : ∀ r ∈ exitThenInterrupt, FlaggedType r.type := by
    unfold FlaggedType
    decide
  refine ⟨fun k h1 hk => ?_, fun k h1 hk => ?_⟩
  · obtain ⟨i, rfl⟩ : ∃ i, k = i + 1 := ⟨k - 1, by omega⟩
    rw [RecordingV2.ofRecords_record hk]
    exact hflagged _ (List.getElem_mem hk)
  · obtain rfl : k = 1 := Nat.le_antisymm (Nat.le_of_lt_succ hk) h1
    rw [RecordingV2.ofRecords_record (i := 0) (by decide),
      RecordingV2.ofRecords_record (i := 1) (by decide)]
    unfold SyncRecordV2.Agrees
    decide

/-- Reading both records, and the first one again. -/
theorem formats_agree_two : ∃ A B f g f' g', A.count = 2 ∧ LoadedV2 A none f ∧ Loaded B none g ∧
    Move.runs [.next, .next, .seek 1] f = some f' ∧ Move.runs [.next, .next, .seek 1] g = some g' ∧
      f'.position = g'.position ∧ f'.eof = g'.eof ∧ SamePoint f'.current g'.current := by
  have hlen : exitThenInterrupt.length ≤ 2 ^ 32 := by decide
  have hlen' : (exitThenInterrupt.map SyncRecordV2.widen).length ≤ 2 ^ 32 := by decide
  have htsc : ∀ r ∈ exitThenInterrupt.map SyncRecordV2.widen, r.tsc ≠ 0 := by decide
  obtain ⟨f, hf⟩ := LoadedV2.exists_no_data (.ofRecords exitThenInterrupt hlen)
  have hloaded : ∃ g, Loaded (.ofRecords (exitThenInterrupt.map SyncRecordV2.widen) htsc hlen') none g :=
    Recording.ofRecords_loaded
  obtain ⟨g, hg⟩ := hloaded
  have hmoves : ∀ m ∈ [Move.next, .next, .seek 1],
      m.InFile (RecordingV2.ofRecords exitThenInterrupt hlen).count := by
    simp [Move.InFile, RecordingV2.ofRecords, exitThenInterrupt]
  obtain ⟨f', g', hf', hg', hagree⟩ := formats_agree _ _ none f g _ exitThenInterrupt_plain
    (ofRecords_rewrites exitThenInterrupt hlen htsc hlen') hf hg hmoves
  exact ⟨_, _, f, g, f', g', rfl, hf, hg, hf', hg', hagree⟩

end RvnSyncPoint
