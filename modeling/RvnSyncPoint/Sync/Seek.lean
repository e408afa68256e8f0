import RvnSyncPoint.Sync.Recording

/-!
# Loading and repositioning

What `load`, the private `seek()` and `seek_from_end()` make of a reader of a recording. Each leaves
it in a good state whatever state it was in before, as long as the recording is open: the stream's
state bits are cleared, and the cursor is put where the new position says.
-/

namespace RvnSyncPoint

open LittleEndian Loop StreamableFile

/-! ## The records on a tape -/

/-- The point `c` was decoded from the `k`-th record. -/
def Recording.IsPoint (R : Recording) (k : ℕ) (c : SyncPoint) : Prop :=
  1 ≤ k ∧ k ≤ R.count ∧ ∃ q data, c = (R.record k).point q data

/-- A point of a recording has a nonzero TSC. -/
theorem Recording.IsPoint.tsc {R : Recording} {k : ℕ} {c : SyncPoint} (h : R.IsPoint k c) :
    c.tsc ≠ 0 := by
  obtain ⟨h1, hk, q, data, rfl⟩ := h
  rw [SyncRecord.point_tsc]
  exact R.record_tsc h1 hk

theorem Recording.IsPoint.valid {R : Recording} {k : ℕ} {c : SyncPoint} (h : R.IsPoint k c) :
    c.valid = true := by
  simpa [SyncPoint.valid] using h.tsc

/-- The points on a tape come from records after its start, in increasing order. -/
theorem tapeOf_spec (R : Recording) (n : ℕ) : ∀ p c d, R.count - p = n →
    (∀ x ∈ tapeOf p c d (R.recordsFrom p), p < x.1 ∧ R.IsPoint x.1 x.2) ∧
      (tapeOf p c d (R.recordsFrom p)).Pairwise (fun x y => x.1 < y.1) := by
  induction n with
  | zero =>
    intro p c d hn
    have hnil : R.recordsFrom p = [] := by simp [Recording.recordsFrom, hn]
    simp [hnil, tapeOf]
  | succ n ih =>
    intro p c d hn
    rw [R.recordsFrom_lt (by omega), tapeOf]
    dsimp only
    split_ifs with heq
    · obtain ⟨hmem, hsorted⟩ := ih (p + 1) c _ (by omega)
      exact ⟨fun x hx => ⟨by have := (hmem x hx).1; omega, (hmem x hx).2⟩, hsorted⟩
    · obtain ⟨hmem, hsorted⟩ := ih (p + 1) ((R.record (p + 1)).point c
        (dataAt (R.record (p + 1)).data_offset d).1) (dataAt (R.record (p + 1)).data_offset d).2
        (by omega)
      refine ⟨fun x hx => ?_, List.pairwise_cons.mpr ⟨fun x hx => (hmem x hx).1, hsorted⟩⟩
      rcases List.mem_cons.mp hx with rfl | hx
      · exact ⟨Nat.lt_succ_self p, by simp, by show p + 1 ≤ R.count; omega, _, _, rfl⟩
      · exact ⟨by have := (hmem x hx).1; omega, (hmem x hx).2⟩

/-- The points on a reader's tape. -/
theorem Recording.mem_tape {R : Recording} {f : SyncFile} {x : ℕ × SyncPoint} (hx : x ∈ R.tape f) :
    f.position < x.1 ∧ R.IsPoint x.1 x.2 :=
  (tapeOf_spec R _ f.position f.current f.data_file rfl).1 x hx

theorem Recording.tape_sorted (R : Recording) (f : SyncFile) :
    (R.tape f).Pairwise (fun x y => x.1 < y.1) :=
  (tapeOf_spec R _ f.position f.current f.data_file rfl).2

/-! ## `seek()` -/

section seek

variable {R : Recording} {f : SyncFile}

theorem Recording.offset_lt (R : Recording) {k : ℕ} (h : k ≤ R.count) : R.offset k < 2 ^ 63 := by
  have hle := R.offset_mono h
  rw [R.offset_count] at hle
  exact lt_of_le_of_lt hle R.size_lt

theorem Attached.record_size_ne (h : Attached R f) : f.record_size ≠ 0 := by
  intro h0
  have hle := R.le_record_size
  rw [← h.record_size, h0] at hle
  exact absurd hle (by decide)

/-- Seeking to zero goes back to the first record, which is still to be read. -/
theorem seek_zero (h : Attached R f) : ∃ f', f.seek 0 = some f' ∧ Reading R f' ∧ f'.position = 0 ∧
    f'.current = {} ∧ f'.current_event = f.current_event ∧ f'.last_valid_position = 0 ∧
    f'.data_file = f.data_file := by
  refine ⟨{ f with last_valid_position := 0, current := {}, file := f.file.seek HEADER_SIZE,
                   position := 0 }, ?_, ⟨⟨?_, h.version, h.record_size, h.sync_point_count, h.data⟩,
    ?_, Nat.zero_le _⟩, rfl, rfl, rfl, rfl, rfl⟩
  · simp only [SyncFile.seek, h.record_size_ne, if_false, if_true]
  · show On R.content (f.file.seek HEADER_SIZE)
    rw [h.on.seek (by decide)]
    exact openAt_on _ _
  · exact h.on.seek (by decide)

/-- The reader before the `next()` of a seek to `q`. -/
def SyncFile.placed (q : ℕ) (f : SyncFile) : SyncFile :=
  { f with position := q - 1, current := {},
           file := f.file.seek ((HEADER_SIZE + f.record_size.toNat * (q - 1)) % 2 ^ 64) }

/-- A seek to a position other than zero goes before it, and reads it by `next()`. -/
theorem seek_placed (hne : f.record_size ≠ 0) {q : ℕ} (hq : q ≠ 0) :
    f.seek q = (f.placed q).next.map fun f =>
      { f with last_valid_position := if f.position = 0 then 0 else f.position - 1 } := by
  rw [SyncFile.seek, if_neg hne, if_neg hq, Option.map_eq_bind]
  rfl

theorem seek_eq (h : Attached R f) {q : ℕ} (hq : q ≠ 0) :
    f.seek q = (f.placed q).next.map fun f =>
      { f with last_valid_position := if f.position = 0 then 0 else f.position - 1 } :=
  seek_placed h.record_size_ne hq

/-- A seek to a position whose offset the stream can represent. -/
theorem placed_file (h : Attached R f) {q : ℕ} (hq : R.offset (q - 1) < 2 ^ 63) :
    (f.placed q).file = openAt R.content (R.offset (q - 1)) := by
  have hoff : (HEADER_SIZE + f.record_size.toNat * (q - 1)) % 2 ^ 64 = R.offset (q - 1) := by
    rw [h.record_size]
    exact Nat.mod_eq_of_lt (by unfold Recording.offset at hq; omega)
  show f.file.seek _ = _
  rw [hoff]
  exact h.on.seek hq

/-- Seeking to a record of the file reads it. -/
theorem seek_record (h : Attached R f) {q : ℕ} (h1 : 1 ≤ q) (hq : q ≤ R.count) :
    ∃ f', f.seek q = some f' ∧ Reading R f' ∧ f'.position = q ∧
      f'.current = (R.record q).point {} (dataAt (R.record q).data_offset f.data_file).1 ∧
      f'.data_file = (dataAt (R.record q).data_offset f.data_file).2 ∧
      f'.current_event = f.current_event.dropped ∧ f'.last_valid_position = q - 1 := by
  have hplaced := placed_file h (R.offset_lt (k := q - 1) (by omega))
  have hread : Reading R (f.placed q) :=
    ⟨⟨by rw [hplaced]; exact openAt_on _ _, h.version, h.record_size, h.sync_point_count, h.data⟩,
      hplaced, by show q - 1 ≤ R.count; omega⟩
  -- The first pass of the loop reads the record, which is not identical to the default point.
  obtain ⟨g, hpass, hg, hpos, hcur, hdata, hev, -⟩ := hread.readPass_lt
    (by show q - 1 < R.count; omega)
  have hq1 : (f.placed q).position + 1 = q := by show q - 1 + 1 = q; omega
  rw [hq1] at hpos hcur hdata
  have hne : (f.placed q).current.operatorEq g.current ≠ true := by
    intro heq
    have htsc := congrArg SyncPoint.tsc ((SyncPoint.operatorEq_iff _ _).mp heq)
    have hpt : R.IsPoint q g.current := ⟨h1, hq, _, _, hcur⟩
    exact hpt.tsc htsc.symm
  have hskip : SyncFile.skipIdentical (f.placed q).current (f.placed q) = some g :=
    loop_leave (by simp [hpass, hne])
  have hnext : (f.placed q).next = some g.dropEvent := by
    rw [SyncFile.next, hread.eof, hskip]
    rfl
  have hafter : R.After g.dropEvent ((q, g.current) :: R.tape g) :=
    Recording.After.dropEvent ⟨hg, hpos, rfl, rfl⟩
  obtain ⟨⟨hatt, hfile, hle⟩, hpos', hcur', -⟩ := hafter
  refine ⟨{ g.dropEvent with
      last_valid_position := if g.dropEvent.position = 0 then 0 else g.dropEvent.position - 1 },
    by rw [seek_eq h (by omega), hnext]; rfl,
    ⟨⟨hatt.on, hatt.version, hatt.record_size, hatt.sync_point_count, hatt.data⟩, hfile, hle⟩,
    hpos', hcur'.trans hcur, ?_, ?_, ?_⟩
  · rw [SyncFile.dropEvent_eq]
    exact hdata
  · rw [SyncFile.dropEvent_eq]
    show g.current_event.dropped = _
    rw [hev]
    rfl
  · show (if g.dropEvent.position = 0 then 0 else g.dropEvent.position - 1) = q - 1
    rw [hpos']
    split_ifs <;> omega

/-- Seeking past the last record meets the end of the file. -/
theorem seek_past (h : Attached R f) {q : ℕ} (hq : R.count < q) (hoff : R.offset (q - 1) < 2 ^ 63) :
    ∃ f', f.seek q = some f' ∧ Ended R f' ∧ f'.position = q - 1 := by
  have hplaced := placed_file h hoff
  have hend : R.content.length ≤ R.offset (q - 1) := by
    rw [← R.offset_count]
    exact R.offset_mono (by omega)
  have hpass := readPass_end hplaced h.version hend
  have hskip : SyncFile.skipIdentical (f.placed q).current (f.placed q) =
      some { f.placed q with file := endAt R.content (R.offset (q - 1)),
                             current := zeroPoint (f.placed q).current.interrupt_vector } := by
    apply loop_leave
    rw [hpass]
    simp [SyncFile.eof]
  have heof : (f.placed q).eof = false := by
    unfold SyncFile.eof
    rw [hplaced]
    rfl
  refine ⟨_, by rw [seek_eq h (by omega), SyncFile.next, heof, hskip]; rfl, ?_, ?_⟩
  · rw [SyncFile.dropEvent_eq]
    exact ⟨⟨endAt_on _ _, h.version, h.record_size, h.sync_point_count, h.data⟩, rfl, _, rfl⟩
  · rw [SyncFile.dropEvent_eq]
    rfl

/-- The zero point is not identical to the default one: their types differ. -/
theorem operatorEq_default_zero (v : UInt8) : SyncPoint.operatorEq {} (zeroPoint v) = false := by
  have htype : (SyncPointType.VMENTER == SyncPointType.VMX_EXIT_XCPT_OR_NMI) = false := by decide
  simp [SyncPoint.operatorEq, zeroPoint, htype]

/-- The last but one record that fits into the header is not identical to the default point. So it is
in a header that is filled with zeros. -/
def Recording.PlainHeader (R : Recording) : Prop := ∀ p data, SyncPoint.operatorEq {}
  ((recordAt R.content (HEADER_SIZE - 2 * R.record_size.toNat)).point p data) = false

/-- Where a seek to the position before zero most often ends: at that position, after a read of zeros
before the start of the file, or after the last but one record that fits into the header. -/
structure OffEnd (R : Recording) (f : SyncFile) : Prop extends Attached R f where
  position : f.position = 2 ^ 64 - 1
  file : (∃ o v, f.file = failedAt R.content o ∧ f.current = zeroPoint v) ∨
    2 * R.record_size.toNat ≤ HEADER_SIZE ∧
      f.file = openAt R.content (HEADER_SIZE - R.record_size.toNat)

/-- The reader is in the file, in a good state or at its end; or it is off the end. -/
def Located (R : Recording) (f : SyncFile) : Prop := (∃ T, R.After f T) ∨ OffEnd R f

theorem Located.attached (h : Located R f) : Attached R f := by
  rcases h with ⟨T, h⟩ | h
  · exact h.attached
  · exact h.toAttached

theorem OffEnd.update (h : OffEnd R f) (e : SyncEvent) (l : ℕ) :
    OffEnd R { f with current_event := e, last_valid_position := l } :=
  ⟨h.toAttached.update e l, h.position, h.file⟩

theorem Located.update (h : Located R f) (e : SyncEvent) (l : ℕ) :
    Located R { f with current_event := e, last_valid_position := l } := by
  rcases h with ⟨T, h⟩ | h
  · exact .inl ⟨T, h.update e l⟩
  · exact .inr (h.update e l)

/-- The read loop after a failed seek reads one zero point. -/
theorem skipIdentical_failed (h : Attached R f) {o : ℕ} (hfile : f.file = failedAt R.content o)
    (hpos : (f.position + 1) % 2 ^ 64 = 2 ^ 64 - 1) :
    ∃ g, SyncFile.skipIdentical {} f = some g ∧ OffEnd R g := by
  obtain ⟨g, hpass, hcur, hg⟩ : ∃ g, f.readPass = some g ∧
      g.current = zeroPoint f.current.interrupt_vector ∧ OffEnd R g :=
    ⟨_, readPass_failed hfile h.version, rfl, ⟨h.on, h.version, h.record_size, h.sync_point_count,
      h.data⟩, hpos, .inl ⟨o, _, hfile, rfl⟩⟩
  exact ⟨g, loop_leave (by simp [hpass, hcur, operatorEq_default_zero]), hg⟩

/-- The read loop from the last but one record that fits into the header: it may go on with the last
one, and with the file. -/
theorem skipIdentical_header (h : Attached R f) (hsmall : 2 * f.record_size.toNat ≤ HEADER_SIZE)
    (hfile : f.file = openAt R.content (HEADER_SIZE - 2 * f.record_size.toNat))
    (hpos : (f.position + 2) % 2 ^ 64 = 0) :
    ∃ g, SyncFile.skipIdentical {} f = some g ∧ Located R g ∧ (R.PlainHeader → OffEnd R g) := by
  have hlen : HEADER_SIZE ≤ R.content.length := by
    rw [R.length_eq]
    exact Nat.le_add_right _ _
  obtain ⟨g, hpass, hg, hgfile, hgpos, hgcur, -⟩ := h.readPass hfile (by omega)
  have hrs : g.record_size = f.record_size := hg.record_size.trans h.record_size.symm
  have hsub : HEADER_SIZE - 2 * f.record_size.toNat + f.record_size.toNat =
      HEADER_SIZE - f.record_size.toNat := by omega
  rw [hsub] at hgfile
  by_cases heq : SyncPoint.operatorEq {} g.current = true
  · -- The header holds a record that is the default point, which a plain one does not.
    have hplain : ¬ R.PlainHeader := by
      intro hplain
      rw [hgcur, h.record_size] at heq
      exact absurd heq (by simp [hplain _ _])
    obtain ⟨k, hpass', hk, hkfile, hkpos, -⟩ := hg.readPass hgfile (by rw [hrs]; omega)
    -- The position wraps to zero as the cursor leaves the header.
    have hkpos' : k.position = 0 := by omega
    rw [hrs, Nat.sub_add_cancel (by omega)] at hkfile
    have hread : Reading R k := ⟨hk, by rw [hkfile, hkpos']; rfl, by rw [hkpos']; exact Nat.zero_le _⟩
    have hagain : SyncFile.skipIdentical {} f = SyncFile.skipIdentical {} g :=
      loop_again (by simp [hpass, heq, SyncFile.eof, hgfile])
    rw [hagain]
    by_cases heq' : SyncPoint.operatorEq {} k.current = true
    · obtain ⟨l, hl, hafter, -⟩ := skipIdentical_reading {} _ k hread rfl
        (SyncPoint.operatorEq_vector heq').symm
      refine ⟨l, ?_, .inl ⟨_, hafter⟩, fun h => absurd h hplain⟩
      rw [SyncFile.skipIdentical, loop_again (t := k) (by simp [hpass', heq', hread.eof])]
      exact hl
    · have hafter : R.After k ((k.position, k.current) :: R.tape k) := ⟨hread, rfl, rfl, rfl⟩
      exact ⟨k, loop_leave (by simp [hpass', heq']), .inl ⟨_, hafter⟩, fun h => absurd h hplain⟩
  · have hoff : OffEnd R g := by
      refine ⟨hg, by omega, .inr ?_⟩
      rw [h.record_size] at hsmall hgfile
      exact ⟨hsmall, hgfile⟩
    exact ⟨g, loop_leave (by simp [hpass, heq]), .inr hoff, fun _ => hoff⟩

/-- The read loop of a seek to the position before zero. The offset wraps around too: it is that of the
last but one record that fits into the header, or is taken for a negative one. -/
theorem skipIdentical_wrapped (h : Attached R f) {q : ℕ} (hq : q + 1 = 2 ^ 64) :
    ∃ g, SyncFile.skipIdentical {} (f.placed q) = some g ∧ Located R g ∧
      (R.PlainHeader → OffEnd R g) := by
  have hlt := f.record_size.toNat_lt
  have hatt : Attached R (f.placed q) :=
    ⟨h.on.seek_on _, h.version, h.record_size, h.sync_point_count, h.data⟩
  have hq1 : q - 1 = 2 ^ 64 - 2 := by omega
  -- The offset is two records before the end of the header, modulo the width of a word.
  rcases Nat.lt_or_ge HEADER_SIZE (2 * f.record_size.toNat) with hbig | hsmall
  · -- Two records are more than the header: the offset wraps to one that counts as negative.
    have hoff : (HEADER_SIZE + f.record_size.toNat * (q - 1)) % 2 ^ 64 =
        2 ^ 64 - (2 * f.record_size.toNat - HEADER_SIZE) := by
      have hsplit : HEADER_SIZE + f.record_size.toNat * (q - 1) =
          2 ^ 64 * (f.record_size.toNat - 1) + (2 ^ 64 - (2 * f.record_size.toNat - HEADER_SIZE)) := by
        rw [hq1]
        unfold HEADER_SIZE at hbig ⊢
        omega
      rw [hsplit, Nat.mul_add_mod]
      exact Nat.mod_eq_of_lt (by omega)
    obtain ⟨o, ho⟩ : ∃ o, f.file.seek (2 ^ 64 - (2 * f.record_size.toNat - HEADER_SIZE)) =
        failedAt R.content o := h.on.seek_neg (by omega) (by omega)
    have hfile : (f.placed q).file = failedAt R.content o := by
      rw [SyncFile.placed, hoff]
      exact ho
    obtain ⟨g, hg, hoffEnd⟩ := skipIdentical_failed hatt hfile (by
      show (q - 1 + 1) % 2 ^ 64 = 2 ^ 64 - 1
      omega)
    exact ⟨g, hg, .inr hoffEnd, fun _ => hoffEnd⟩
  · -- Two records fit into the header, and the offset is that of the first of them.
    have hoff : (HEADER_SIZE + f.record_size.toNat * (q - 1)) % 2 ^ 64 =
        HEADER_SIZE - 2 * f.record_size.toNat := by
      rw [hq1]
      unfold HEADER_SIZE at hsmall ⊢
      omega
    have hfile : (f.placed q).file =
        openAt R.content (HEADER_SIZE - 2 * (f.placed q).record_size.toNat) := by
      rw [SyncFile.placed, hoff]
      exact h.on.seek (by unfold HEADER_SIZE; omega)
    exact skipIdentical_header hatt hsmall hfile (by
      show (q - 1 + 2) % 2 ^ 64 = 0
      omega)

/-- A seek to the position before zero ends, somewhere: most often at the position before zero. -/
theorem seek_wrapped_located (h : Attached R f) {q : ℕ} (hq : q + 1 = 2 ^ 64) :
    ∃ g, f.seek q = some g ∧ Located R g ∧ (R.PlainHeader → OffEnd R g) := by
  obtain ⟨g, hg, hlocated, hplain⟩ := skipIdentical_wrapped h hq
  have heof : (f.placed q).eof = false := h.on.seek_eof _
  have hnext : (f.placed q).next = some g.dropEvent := by
    rw [SyncFile.next, heof, show (f.placed q).current = {} from rfl, hg]
    rfl
  rw [seek_eq h (by omega), hnext, SyncFile.dropEvent_eq]
  exact ⟨_, rfl, hlocated.update _ _, fun h => (hplain h).update _ _⟩

/-- Its position is then the one before zero. -/
theorem seek_wrapped (h : Attached R f) {q : ℕ} (hq : q + 1 = 2 ^ 64) :
    ∃ g, f.seek q = some g ∧ Attached R g ∧ (R.PlainHeader → g.position = q) := by
  obtain ⟨g, hg, hlocated, hplain⟩ := seek_wrapped_located h hq
  refine ⟨g, hg, hlocated.attached, fun h => ?_⟩
  rw [(hplain h).position]
  omega

/-! ## `seek_from_end()` -/

/-- Seeking back from the end of an open file, over the lengths of `p + 1` records. The position is
computed from the offset that the stream reports. -/
theorem seekFromEnd_eq {c : List UInt8} {p o : ℕ} (hon : On c f.file) (hne : f.record_size ≠ 0)
    (hsize : c.length < 2 ^ 63) (ho : HEADER_SIZE ≤ o)
    (hlen : o + f.record_size.toNat * (p + 1) = c.length) :
    f.seekFromEnd p = { f with current := {}, file := openAt c o, last_valid_position := p,
                               position := (o - HEADER_SIZE) / f.record_size.toNat } := by
  have hpos : 0 < f.record_size.toNat := Nat.pos_of_ne_zero fun h => hne (UInt32.toNat_inj.mp h)
  have hle : p + 1 ≤ f.record_size.toNat * (p + 1) := Nat.le_mul_of_pos_left _ hpos
  -- Nothing overflows: what is gone back over are bytes of the file.
  have hoff : (f.record_size.toNat * ((p + 1) % 2 ^ 64)) % 2 ^ 64 = f.record_size.toNat * (p + 1) := by
    rw [Nat.mod_eq_of_lt (a := p + 1) (by omega)]
    exact Nat.mod_eq_of_lt (by omega)
  have hback : c.length - f.record_size.toNat * (p + 1) = o := by omega
  have hfile : f.file.seekFromEnd (toInt64 ((f.record_size.toNat * ((p + 1) % 2 ^ 64)) % 2 ^ 64)) =
      openAt c o := by
    rw [hoff, toInt64_of_lt (by omega), hon.seekFromEnd (by omega), hback]
  have hsub : ((openAt c o).pos + (2 ^ 64 - HEADER_SIZE)) % 2 ^ 64 = o - HEADER_SIZE := by
    rw [openAt_pos (by omega)]
    unfold HEADER_SIZE at ho ⊢
    omega
  unfold SyncFile.seekFromEnd
  rw [if_neg hne]
  simp only [hfile, hsub]

/-- Seeking back from the end, over `p` records and the one that is to be read next. -/
theorem seekFromEnd_reading (h : Attached R f) {p : ℕ} (hp : p < R.count) :
    Reading R (f.seekFromEnd p) ∧ (f.seekFromEnd p).position = R.count - (p + 1) ∧
      (f.seekFromEnd p).current = {} ∧ (f.seekFromEnd p).current_event = f.current_event ∧
      (f.seekFromEnd p).last_valid_position = p ∧ (f.seekFromEnd p).data_file = f.data_file := by
  have hrs := R.le_record_size
  have hsum : R.record_size.toNat * (R.count - (p + 1)) + R.record_size.toNat * (p + 1) =
      R.record_size.toNat * R.count := by
    rw [← Nat.mul_add]
    congr 1
    omega
  have hlen : R.offset (R.count - (p + 1)) + f.record_size.toNat * (p + 1) = R.content.length := by
    rw [h.record_size, R.length_eq, Recording.offset, Nat.add_assoc, hsum]
  have hquot : (R.offset (R.count - (p + 1)) - HEADER_SIZE) / f.record_size.toNat =
      R.count - (p + 1) := by
    rw [h.record_size, Recording.offset, Nat.add_sub_cancel_left, Nat.mul_div_cancel_left _ (by omega)]
  have ho : HEADER_SIZE ≤ R.offset (R.count - (p + 1)) := Nat.le_add_right _ _
  rw [seekFromEnd_eq h.on h.record_size_ne R.size_lt ho hlen, hquot]
  exact ⟨⟨⟨openAt_on _ _, h.version, h.record_size, h.sync_point_count, h.data⟩, rfl,
    Nat.sub_le _ _⟩, rfl, rfl, rfl, rfl, rfl⟩

end seek

end RvnSyncPoint
