import RvnSyncPoint.Sync.Encode
import RvnSyncPoint.Sync.Opened

/-!
# Scanning a file to its end

The loop `while (file.next().valid()) {}` on a version-3 file of any content. The file is a number of
whole records, and then what is left of a cut one. The loop ends when `next()` gives an invalid point:
a whole record with a zero TSC, unless it is skipped as identical to the default point, or the cut
record, if what is left of its TSC is zero (`scan_ends_iff`). A cut record with another TSC is given
again and again.
-/

namespace RvnSyncPoint

open LittleEndian Loop StreamableFile

/-- One pass of the loop `while (file.next().valid()) {}`. -/
def SyncFile.scanPass (f : SyncFile) : Option (SyncFile ⊕ SyncFile) := do
  let f ← f.next
  return if f.current.valid then .inl f else .inr f

/-- The loop `while (file.next().valid()) {}`. -/
def SyncFile.scan : SyncFile → Option SyncFile := loop scanPass

/-! ## The records of a file -/

/-- The number of whole records. -/
def wholeRecords (c : List UInt8) (rs : UInt32) : ℕ := (c.length - HEADER_SIZE) / rs.toNat

/-- The offset of the record `k`, counted from 0. -/
def recordOffset (rs : UInt32) (k : ℕ) : ℕ := HEADER_SIZE + rs.toNat * k

/-- The record `k`, counted from 0. -/
def recordOf (c : List UInt8) (rs : UInt32) (k : ℕ) : SyncRecord := recordAt c (recordOffset rs k)

/-- What is left of the record that the end of the file cuts. -/
def cutRecord (c : List UInt8) (rs : UInt32) : List UInt8 :=
  c.drop (recordOffset rs (wholeRecords c rs))

/-- `next()` takes the record for the same as the point `prev` before it. -/
def SyncRecord.SameAs (prev : SyncPoint) (r : SyncRecord) : Prop :=
  prev.operatorEq (r.point prev []) = true

/-- The condition under which the loop ends: what is left of the TSC of the cut record is zero, or a
whole record has a zero TSC, itself not identical to the default point or after one that is not. -/
def ScanEnds (c : List UInt8) (rs : UInt32) : Prop :=
  (∀ b ∈ (cutRecord c rs).take 8, b = 0) ∨
    ∃ k < wholeRecords c rs, (recordOf c rs k).tsc = 0 ∧
      ∃ i ≤ k, ¬ (recordOf c rs i).SameAs {}

section

variable {c : List UInt8} {rs : UInt32} {f g : SyncFile} {k j : ℕ} {prev : SyncPoint}

theorem recordOffset_succ (rs : UInt32) (k : ℕ) :
    recordOffset rs (k + 1) = recordOffset rs k + rs.toNat := by
  unfold recordOffset
  ring

/-- A whole record lies inside the file. -/
theorem recordOffset_le (hrs : 0 < rs.toNat) (hk : k < wholeRecords c rs) :
    recordOffset rs k + rs.toNat ≤ c.length := by
  have hmul := (Nat.le_div_iff_mul_le hrs).mp (show k + 1 ≤ (c.length - HEADER_SIZE) / rs.toNat from hk)
  have hpos : 0 < (k + 1) * rs.toNat := Nat.mul_pos (Nat.succ_pos k) hrs
  have hcomm : (k + 1) * rs.toNat = rs.toNat * k + rs.toNat := by ring
  unfold recordOffset
  omega

/-- The record after the whole ones does not. -/
theorem length_lt_recordOffset (hrs : 0 < rs.toNat) :
    c.length < recordOffset rs (wholeRecords c rs) + rs.toNat := by
  have hlt := Nat.lt_mul_div_succ (c.length - HEADER_SIZE) hrs
  unfold recordOffset wholeRecords
  rw [Nat.mul_add, Nat.mul_one] at hlt
  omega

/-- Data does not matter to `operator==`. -/
theorem SyncRecord.sameAs_iff (r : SyncRecord) (p : SyncPoint) (data : List SyncPointData)
    (h : p.interrupt_vector = prev.interrupt_vector) :
    prev.operatorEq (r.point p data) = true ↔ r.SameAs prev := by
  rw [r.point_congr data h, SameAs]
  rfl

/-- A record that is the same as a point has its TSC. -/
theorem SyncRecord.SameAs.tsc {r : SyncRecord} (h : r.SameAs prev) : r.tsc = prev.tsc := by
  have hcompared := congrArg SyncPoint.tsc ((SyncPoint.operatorEq_iff _ _).mp h)
  rw [← SyncRecord.point_tsc r prev []]
  exact hcompared.symm

/-- Where the read loop leaves, from the record `k`: at the first record `j` that is not the same as
`prev`, or in the cut record. -/
def Leaves (c : List UInt8) (rs : UInt32) (prev : SyncPoint) (k : ℕ) (g : SyncFile) : Prop :=
  (∃ j, k ≤ j ∧ j < wholeRecords c rs ∧ (∀ i, k ≤ i → i < j → (recordOf c rs i).SameAs prev) ∧
      ¬ (recordOf c rs j).SameAs prev ∧ g.file = openAt c (recordOffset rs (j + 1)) ∧
      g.current.tsc = (recordOf c rs j).tsc) ∨
    (∀ i, k ≤ i → i < wholeRecords c rs → (recordOf c rs i).SameAs prev) ∧ g.eof = true ∧
      g.current.tsc = .ofNat (ofBytes ((cutRecord c rs).take 8))

/-- A record that is the same as `prev` is skipped. -/
theorem Leaves.cons (hk : (recordOf c rs k).SameAs prev) (h : Leaves c rs prev (k + 1) g) :
    Leaves c rs prev k g := by
  have hextend {m : ℕ} (hsame : ∀ i, k + 1 ≤ i → i < m → (recordOf c rs i).SameAs prev) :
      ∀ i, k ≤ i → i < m → (recordOf c rs i).SameAs prev := by
    intro i hi hlt
    rcases Nat.eq_or_lt_of_le hi with rfl | hi
    · exact hk
    · exact hsame i hi hlt
  rcases h with ⟨j, hj, hlt, hsame, hne, hfile, htsc⟩ | ⟨hsame, heof, htsc⟩
  · exact .inl ⟨j, by omega, hlt, hextend hsame, hne, hfile, htsc⟩
  · exact .inr ⟨hextend hsame, heof, htsc⟩

/-- The specification of the read loop, from the offset of the record `k`. The induction is on the
whole records that remain. -/
theorem Opened.skipIdentical_leaves (prev : SyncPoint) (n : ℕ) : ∀ (f : SyncFile) (k : ℕ),
    Opened c rs f → f.file = openAt c (recordOffset rs k) → wholeRecords c rs = k + n →
    f.current.interrupt_vector = prev.interrupt_vector →
    ∃ g, SyncFile.skipIdentical prev f = some g ∧ Opened c rs g ∧ Leaves c rs prev k g := by
  induction n with
  | zero =>
    intro f k h hfile hn hvec
    have hrs : 0 < rs.toNat := by have := h.le_record_size; omega
    have hend : c.length < recordOffset rs k + rs.toNat := by
      rw [← Nat.add_zero k, ← hn]
      exact length_lt_recordOffset hrs
    -- No whole record is left: the pass meets the end of the file.
    obtain ⟨g, hpass, hg, heof, htsc⟩ := h.readPass_cut hfile hend
    refine ⟨g, loop_leave (by simp [hpass, heof]), hg, .inr ⟨fun i hi hlt => by omega, heof, ?_⟩⟩
    rw [htsc, leAt, cutRecord, hn, Nat.add_zero]
  | succ n ih =>
    intro f k h hfile hn hvec
    have hrs : 0 < rs.toNat := by have := h.le_record_size; omega
    obtain ⟨g, data, hpass, hg, hgfile, hcurrent⟩ :=
      h.readPass_whole hfile (recordOffset_le hrs (show k < wholeRecords c rs by omega))
    have heof : g.eof = false := by rw [SyncFile.eof, hgfile]; rfl
    have hsame : prev.operatorEq g.current = true ↔ (recordOf c rs k).SameAs prev := by
      rw [hcurrent]
      exact SyncRecord.sameAs_iff _ _ data hvec
    rw [← recordOffset_succ] at hgfile
    -- The pass reads the record `k`, which is skipped if it is the same as `prev`.
    by_cases heq : prev.operatorEq g.current = true
    · obtain ⟨g', hskip, hg', hleaves⟩ := ih g (k + 1) hg hgfile (by omega)
        (SyncPoint.operatorEq_vector heq).symm
      refine ⟨g', ?_, hg', hleaves.cons (hsame.mp heq)⟩
      rw [SyncFile.skipIdentical, loop_again (t := g) (by simp [hpass, heof, heq])]
      exact hskip
    · refine ⟨g, loop_leave (by simp [hpass, heq]), hg, .inl ⟨k, le_rfl, by omega,
        fun i hi hlt => by omega, fun h => heq (hsame.mpr h), hgfile, ?_⟩⟩
      rw [hcurrent]
      exact SyncRecord.point_tsc _ _ _

/-- The specification of `next()`, from the offset of the record `k`. -/
theorem Opened.next_leaves (h : Opened c rs f) (hfile : f.file = openAt c (recordOffset rs k))
    (hk : k ≤ wholeRecords c rs) :
    ∃ g, f.next = some g ∧ Opened c rs g ∧ Leaves c rs f.current k g := by
  obtain ⟨g, hskip, hg, hleaves⟩ := Opened.skipIdentical_leaves f.current (wholeRecords c rs - k) f k
    h hfile (by omega) rfl
  have heof : f.eof = false := by rw [SyncFile.eof, hfile]; rfl
  refine ⟨g.dropEvent, by simp [SyncFile.next, heof, hskip], hg.dropEvent, ?_⟩
  rw [SyncFile.dropEvent_eq]
  exact hleaves

/-! ## The loop -/

theorem SyncFile.scan_valid (hnext : f.next = some g) (h : g.current.valid = true) :
    f.scan = g.scan :=
  loop_again (by simp [scanPass, hnext, h])

theorem SyncFile.scan_invalid (hnext : f.next = some g) (h : g.current.valid = false) :
    f.scan = some g :=
  loop_leave (by simp [scanPass, hnext, h])

/-- At the end of the file, a valid point is given again and again. -/
theorem SyncFile.scan_eof (heof : f.eof = true) (h : f.current.valid = true) : f.scan = none := by
  refine loop_diverges (fun f => f.eof = true ∧ f.current.valid = true) ?_ f ⟨heof, h⟩
  rintro f ⟨heof, h⟩
  exact ⟨f, by simp [scanPass, SyncFile.next, heof, h], heof, h⟩

/-- When `next()` meets the end of the file, the loop ends if what is left of the TSC is zero. -/
theorem SyncFile.scan_cut (hnext : f.next = some g) (heof : g.eof = true)
    (htsc : g.current.tsc = .ofNat (ofBytes ((cutRecord c rs).take 8))) :
    f.scan.isSome = true ↔ ∀ b ∈ (cutRecord c rs).take 8, b = 0 := by
  have hvalid : g.current.valid = false ↔ ∀ b ∈ (cutRecord c rs).take 8, b = 0 := by
    rw [← ofNat_ofBytes_take_eq_zero_iff, ← htsc]
    exact bne_eq_false_iff_eq
  rw [← hvalid]
  cases hv : g.current.valid with
  | false => simp [scan_invalid hnext hv]
  | true => simp [scan_valid hnext hv, scan_eof heof hv]

/-- The loop from a valid point before the record `k` ends if a record with a zero TSC follows, or what
is left of the TSC of the cut one is zero. The induction is on the whole records that remain. -/
theorem Opened.scan_from (n : ℕ) : ∀ (f : SyncFile) (k : ℕ), Opened c rs f →
    f.file = openAt c (recordOffset rs k) → wholeRecords c rs - k = n → k ≤ wholeRecords c rs →
    f.current.tsc ≠ 0 →
    (f.scan.isSome = true ↔ (∀ b ∈ (cutRecord c rs).take 8, b = 0) ∨
      ∃ j, k ≤ j ∧ j < wholeRecords c rs ∧ (recordOf c rs j).tsc = 0) := by
  induction n using Nat.strongRecOn with
  | ind n ih =>
    intro f k h hfile hn hk htsc
    obtain ⟨g, hnext, hg, hleaves⟩ := h.next_leaves hfile hk
    rcases hleaves with ⟨j, hkj, hj, hsame, -, hgfile, hgtsc⟩ | ⟨hsame, heof, hgtsc⟩
    · -- `next()` stops at the record `j`, past records that are the same as the current point.
      cases hv : g.current.valid with
      | false =>
        have hzero : (recordOf c rs j).tsc = 0 := by
          rw [← hgtsc]
          simpa [SyncPoint.valid] using hv
        rw [SyncFile.scan_invalid hnext hv]
        exact ⟨fun _ => .inr ⟨j, hkj, hj, hzero⟩, fun _ => rfl⟩
      | true =>
        have hne : g.current.tsc ≠ 0 := by simpa [SyncPoint.valid] using hv
        rw [SyncFile.scan_valid hnext hv, ih _ (by omega) g (j + 1) hg hgfile rfl hj hne]
        refine or_congr_right ?_
        constructor
        · rintro ⟨i, hi, hlt, h0⟩
          exact ⟨i, by omega, hlt, h0⟩
        · -- The records up to `j` have a TSC that is not zero.
          rintro ⟨i, hi, hlt, h0⟩
          refine ⟨i, ?_, hlt, h0⟩
          by_contra hij
          rcases Nat.lt_or_ge i j with hlt' | hge
          · exact htsc ((hsame i hi hlt').tsc.symm.trans h0)
          · obtain rfl : i = j := by omega
            exact hne (hgtsc.trans h0)
    · -- Every record that is left is the same as the current point, and none has a zero TSC.
      rw [SyncFile.scan_cut hnext heof hgtsc]
      refine ⟨.inl, fun hor => hor.resolve_right ?_⟩
      rintro ⟨i, hi, hlt, h0⟩
      exact htsc ((hsame i hi hlt).tsc.symm.trans h0)

/-- The loop `while (file.next().valid()) {}` on a freshly loaded version-3 file, of any length and
content, ends exactly when `ScanEnds` holds of the file. -/
theorem scan_ends_iff (c : List UInt8) (data : Option (List UInt8)) (f : SyncFile)
    (h : Accepts c data f) : f.scan.isSome = true ↔ ScanEnds c f.record_size := by
  obtain ⟨hopened, hfile, hcurrent, -⟩ := h.opened
  have hfile0 : f.file = openAt c (recordOffset f.record_size 0) := by
    rw [hfile, recordOffset, Nat.mul_zero, Nat.add_zero]
  obtain ⟨g, hnext, hg, hleaves⟩ := hopened.next_leaves hfile0 (Nat.zero_le _)
  rw [hcurrent] at hleaves
  unfold ScanEnds
  rcases hleaves with ⟨j, -, hj, hsame, hne, hgfile, hgtsc⟩ | ⟨hsame, heof, hgtsc⟩
  · -- The first `next()` stops at the record `j`, past records that are the default point.
    cases hv : g.current.valid with
    | false =>
      have hzero : (recordOf c f.record_size j).tsc = 0 := by
        rw [← hgtsc]
        simpa [SyncPoint.valid] using hv
      rw [SyncFile.scan_invalid hnext hv]
      exact ⟨fun _ => .inr ⟨j, hj, hzero, j, le_rfl, hne⟩, fun _ => rfl⟩
    | true =>
      have htsc : g.current.tsc ≠ 0 := by simpa [SyncPoint.valid] using hv
      rw [SyncFile.scan_valid hnext hv,
        Opened.scan_from _ g (j + 1) hg hgfile rfl hj htsc]
      refine or_congr_right ?_
      constructor
      · rintro ⟨i, hi, hlt, h0⟩
        exact ⟨i, hlt, h0, j, by omega, hne⟩
      · rintro ⟨i, hlt, h0, i', hi', hne'⟩
        refine ⟨i, ?_, hlt, h0⟩
        -- The first record that is not the default point is `j`, and its TSC is not zero.
        have hji' : j ≤ i' := by
          by_contra hcon
          exact hne' (hsame i' (Nat.zero_le _) (by omega))
        have hij : i ≠ j := by
          rintro rfl
          exact htsc (hgtsc.trans h0)
        omega
  · -- Every record is the default point, so there is none to stop at.
    rw [SyncFile.scan_cut hnext heof hgtsc]
    refine ⟨.inl, fun hor => hor.resolve_right ?_⟩
    rintro ⟨i, hlt, -, i', hi', hne'⟩
    exact hne' (hsame i' (Nat.zero_le _) (by omega))

/-- `load` accepts a file that begins with the header of a recording. -/
theorem exists_accepts_header (bs : List UInt8) :
    ∃ f, Accepts (header ++ bs) none f ∧ f.record_size = 256 := by
  have hlen : 20 ≤ (header ++ bs).length := by
    rw [List.length_append, length_header]
    unfold HEADER_SIZE
    omega
  have hfield {o k : ℕ} (h : o + k ≤ HEADER_SIZE) : leAt (header ++ bs) o k = leAt header o k :=
    leAt_append_left (by rw [length_header]; exact h)
  refine exists_accepts hlen ?_ ?_ ?_ (by decide)
  · rw [hfield (by decide)]
    decide +kernel
  · rw [hfield (by decide)]
    decide +kernel
  · rw [hfield (by decide)]
    decide +kernel

/-- A file of which only a part of the first record's TSC was written. -/
def cutInTsc (bs : List UInt8) : List UInt8 := header ++ bs

theorem length_cutInTsc (bs : List UInt8) : (cutInTsc bs).length = HEADER_SIZE + bs.length := by
  rw [cutInTsc, List.length_append, length_header]

theorem cutInTsc_accepts (bs : List UInt8) :
    ∃ f, Accepts (cutInTsc bs) none f ∧ f.record_size = 256 := exists_accepts_header bs

/-- There is no whole record in it. -/
theorem cutInTsc_records {bs : List UInt8} (h : bs.length < 256) :
    wholeRecords (cutInTsc bs) 256 = 0 ∧ cutRecord (cutInTsc bs) 256 = bs := by
  have hwhole : wholeRecords (cutInTsc bs) 256 = 0 := by
    rw [wholeRecords, length_cutInTsc, Nat.add_sub_cancel_left]
    exact Nat.div_eq_of_lt h
  refine ⟨hwhole, ?_⟩
  rw [cutRecord, hwhole, recordOffset, Nat.mul_zero, Nat.add_zero, ← length_header, cutInTsc,
    List.drop_left]

/-- After a byte that is zero, the loop ends. -/
theorem scan_ends_zero : ∃ f, Accepts (cutInTsc [0]) none f ∧ f.scan.isSome = true := by
  obtain ⟨f, hf, hrs⟩ := cutInTsc_accepts [0]
  refine ⟨f, hf, (scan_ends_iff (cutInTsc [0]) none f hf).mpr (.inl ?_)⟩
  rw [hrs, (cutInTsc_records (by decide)).2]
  simp

/-- After one that is not, it does not. -/
theorem not_scan_ends : ¬ ∀ (c : List UInt8) (data : Option (List UInt8)) (f : SyncFile),
    Accepts c data f → f.scan.isSome = true := by
  intro halways
  obtain ⟨f, hf, hrs⟩ := cutInTsc_accepts [1]
  obtain ⟨hwhole, hcut⟩ := cutInTsc_records (show [1].length < 256 by decide)
  obtain ⟨hopened, hfile, -, -⟩ := hf.opened
  rw [hrs] at hopened
  obtain ⟨g, hnext, hg, hleaves⟩ := hopened.next_leaves (show f.file = openAt _ (recordOffset 256 0) from hfile)
    (Nat.zero_le _)
  rcases hleaves with ⟨j, -, hj, -⟩ | ⟨-, heof, htsc⟩
  · rw [hwhole] at hj
    omega
  · have hzero := (SyncFile.scan_cut hnext heof htsc).mp (halways _ none f hf)
    rw [hcut] at hzero
    exact absurd hzero (by decide)

end

end RvnSyncPoint
