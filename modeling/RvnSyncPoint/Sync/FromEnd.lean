import RvnSyncPoint.Sync.Count
import RvnSyncPoint.Sync.Kept

/-!
# Seeking from the end

`seek_from_end()` goes back over records from the end of the file, and `seek()` goes over records from
the header. Where the last record is cut, the first leaves the cursor as many bytes inside a record as
are left of the cut one, and rounds the position down to that record. So `next()` then counts the record
that `seek()` reads, but decodes other bytes; they agree exactly if those decode to the same point
(`seekFromEnd_agrees_iff`).
-/

namespace RvnSyncPoint

open LittleEndian Loop StreamableFile

/-- The point that the record at the offset `o` decodes to, with its data from the data file `d`. -/
def decodedAt (c : List UInt8) (d : StreamableFile) (o : ℕ) : SyncPoint :=
  (recordAt c o).point {} (dataAt (recordAt c o).data_offset d).1

/-- `seek_from_end()` over `p` records, and `next()` after it, give the position and the point that
`seek()` gives at the record that has `p` records after it. -/
def SyncFile.AgreesFromEnd (f : SyncFile) (p : ℕ) : Prop :=
  ∃ g h, (f.seekFromEnd p).next = some g ∧ f.seek (f.sync_point_count - p) = some h ∧
    g.position = h.position ∧ g.current = h.current

section

variable {c : List UInt8} {rs : UInt32} {f g : SyncFile} {data : Option (List UInt8)} {o p q : ℕ}

/-- What `load` counts are the whole records. -/
theorem Accepts.count (h : Accepts c data f) (hheader : HEADER_SIZE ≤ c.length)
    (hsize : c.length < 2 ^ 64) : f.sync_point_count = wholeRecords c f.record_size := by
  obtain ⟨⟨u, hload⟩, hversion, -⟩ := h
  obtain ⟨hmagic, hrs⟩ := header_of_load hload
  have hcount : headerCount c = wholeRecords c (headerRecordSize c) := by
    have hiff := (headerCount_eq_iff hsize hrs).mpr hheader
    rwa [if_pos hheader] at hiff
  rw [load_of_header hmagic, if_neg hrs] at hload
  split_ifs at hload with hv
  · cases hload
    exact hcount
  · obtain ⟨-, -, hf⟩ := loadData_returned hload
    rw [hf]
    exact hcount

/-- The whole records and what is left of the cut one make up the file. -/
theorem length_cutRecord (rs : UInt32) (hheader : HEADER_SIZE ≤ c.length) :
    recordOffset rs (wholeRecords c rs) + (cutRecord c rs).length = c.length := by
  have hle := Nat.mul_div_le (c.length - HEADER_SIZE) rs.toNat
  rw [cutRecord, List.length_drop]
  unfold recordOffset wholeRecords
  omega

theorem decodedAt_tsc (c : List UInt8) (d : StreamableFile) (o : ℕ) :
    (decodedAt c d o).tsc = (recordAt c o).tsc := SyncRecord.point_tsc _ _ _

/-- A point with a TSC is not identical to the default one. -/
theorem SyncPoint.tsc_of_default {x : SyncPoint} (h : SyncPoint.operatorEq {} x = true) :
    x.tsc = 0 :=
  (congrArg SyncPoint.tsc ((SyncPoint.operatorEq_iff _ _).mp h)).symm

/-! ## `next()` from the default point -/

/-- The first pass of `next()` from the default point decodes the record at the cursor. -/
theorem Opened.readPass_decoded (h : Opened c rs f) (hfile : f.file = openAt c o)
    (hle : o + rs.toNat ≤ c.length) (hcurrent : f.current = {}) :
    ∃ g, f.readPass = some g ∧ Opened c rs g ∧ g.file = openAt c (o + rs.toNat) ∧
      g.position = (f.position + 1) % 2 ^ 64 ∧ g.current = decodedAt c f.data_file o := by
  obtain ⟨dc, hd⟩ := h.data
  have hrs := h.record_size
  subst hrs
  refine ⟨_, readPass_openAt hfile h.version h.le_record_size hle hd,
    ⟨openAt_on _ _, h.version, rfl, h.le_record_size, dc, dataAt_healthy hd _⟩, rfl, rfl, ?_⟩
  rw [hcurrent]
  rfl

/-- If that is not the default point, it is what `next()` gives. -/
theorem Opened.next_decoded (h : Opened c rs f) (hfile : f.file = openAt c o)
    (hle : o + rs.toNat ≤ c.length) (hcurrent : f.current = {})
    (hne : ¬ SyncPoint.operatorEq {} (decodedAt c f.data_file o) = true) :
    ∃ g, f.next = some g ∧ g.position = (f.position + 1) % 2 ^ 64 ∧
      g.current = decodedAt c f.data_file o := by
  obtain ⟨g, hpass, -, -, hpos, hcur⟩ := h.readPass_decoded hfile hle hcurrent
  have heof : f.eof = false := by rw [SyncFile.eof, hfile]; rfl
  have hskip : SyncFile.skipIdentical f.current f = some g := by
    rw [hcurrent]
    exact loop_leave (by simp [hpass, hcur, hne])
  refine ⟨g.dropEvent, by simp [SyncFile.next, heof, hskip], ?_⟩
  rw [SyncFile.dropEvent_eq]
  exact ⟨hpos, hcur⟩

/-- The read loop, from where a whole number of records would be left: it counts at least one more, or
reads nothing at the end of the file. -/
theorem Opened.skipIdentical_onward (prev : SyncPoint) (n : ℕ) : ∀ (f : SyncFile) (o : ℕ),
    Opened c rs f → f.file = openAt c o → o + rs.toNat * n = c.length → f.position + n < 2 ^ 64 →
    ∃ g, SyncFile.skipIdentical prev f = some g ∧ (g.current.tsc = 0 ∨ f.position < g.position) := by
  -- The induction is on the records that would be left.
  induction n with
  | zero =>
    intro f o h hfile hlen hlt
    have hpos := h.le_record_size
    obtain ⟨g, hpass, -, heof, htsc⟩ := h.readPass_cut hfile (by omega)
    refine ⟨g, loop_leave (by simp [hpass, heof]), .inl ?_⟩
    rw [htsc, leAt, List.drop_eq_nil_of_le (by omega)]
    rfl
  | succ n ih =>
    intro f o h hfile hlen hlt
    rw [Nat.mul_succ] at hlen
    obtain ⟨g, data, hpass, hg, hgfile, -⟩ := h.readPass_whole hfile (by omega)
    have heof : g.eof = false := by rw [SyncFile.eof, hgfile]; rfl
    have hpos : g.position = f.position + 1 := by
      rw [readPass_position hpass, heof]
      exact Nat.mod_eq_of_lt (by omega)
    by_cases hsame : prev.operatorEq g.current = true
    · obtain ⟨g', hskip, hg'⟩ := ih g _ hg hgfile (by omega) (by omega)
      refine ⟨g', ?_, hg'.imp_right fun h => by omega⟩
      rw [SyncFile.skipIdentical, loop_again (t := g) (by simp [hpass, heof, hsame])]
      exact hskip
    · exact ⟨g, loop_leave (by simp [hpass, hsame]), .inr (by omega)⟩

/-- If the first record decodes to the default point, `next()` goes on to a later position, or gives a
point without a TSC. -/
theorem Opened.next_blank (h : Opened c rs f) (hfile : f.file = openAt c o) {n : ℕ}
    (hlen : o + rs.toNat * (n + 1) = c.length) (hlt : f.position + (n + 1) < 2 ^ 64)
    (hcurrent : f.current = {})
    (hblank : SyncPoint.operatorEq {} (decodedAt c f.data_file o) = true) :
    ∃ g, f.next = some g ∧ (g.current.tsc = 0 ∨ f.position + 1 < g.position) := by
  rw [Nat.mul_succ] at hlen
  obtain ⟨g, hpass, hg, hgfile, hpos, hcur⟩ := h.readPass_decoded hfile (by omega) hcurrent
  rw [Nat.mod_eq_of_lt (by omega)] at hpos
  have hfeof : f.eof = false := by rw [SyncFile.eof, hfile]; rfl
  have heof : g.eof = false := by rw [SyncFile.eof, hgfile]; rfl
  obtain ⟨g', hskip, hg'⟩ :=
    Opened.skipIdentical_onward {} n g _ hg hgfile (by omega) (by omega)
  have hloop : SyncFile.skipIdentical f.current f = some g' := by
    rw [hcurrent, SyncFile.skipIdentical, loop_again (t := g) (by simp [hpass, heof, hcur, hblank])]
    exact hskip
  refine ⟨g'.dropEvent, by simp [SyncFile.next, hfeof, hloop], ?_⟩
  rw [SyncFile.dropEvent_eq]
  exact hg'.imp_right fun h => by show f.position + 1 < g'.position; omega

/-! ## The two seeks -/

/-- Seeking to a whole record reads it. -/
theorem Opened.seek_record (h : Opened c rs f) (hsize : c.length < 2 ^ 63) (h1 : 1 ≤ q)
    (hq : q ≤ wholeRecords c rs) (htsc : (recordOf c rs (q - 1)).tsc ≠ 0) :
    ∃ g, f.seek q = some g ∧ g.position = q ∧
      g.current = decodedAt c f.data_file (recordOffset rs (q - 1)) := by
  have hrs := h.le_record_size
  have hle : recordOffset rs (q - 1) + rs.toNat ≤ c.length := recordOffset_le (by omega) (by omega)
  -- The record is in the file, so neither its offset nor its position wraps around.
  have hcount : q ≤ c.length := by
    have hmul : q - 1 ≤ rs.toNat * (q - 1) := Nat.le_mul_of_pos_left _ (by omega)
    unfold recordOffset at hle
    omega
  have hoff : (HEADER_SIZE + f.record_size.toNat * (q - 1)) % 2 ^ 64 = recordOffset rs (q - 1) := by
    rw [h.record_size]
    exact Nat.mod_eq_of_lt (by unfold recordOffset at hle; omega)
  have hplaced : (f.placed q).file = openAt c (recordOffset rs (q - 1)) := by
    show f.file.seek _ = _
    rw [hoff]
    exact h.on.seek (by omega)
  have hopened : Opened c rs (f.placed q) :=
    ⟨hplaced ▸ openAt_on _ _, h.version, h.record_size, h.le_record_size, h.data⟩
  obtain ⟨g, hnext, hpos, hcur⟩ := hopened.next_decoded hplaced hle rfl fun hdefault =>
    htsc (decodedAt_tsc _ _ _ ▸ SyncPoint.tsc_of_default hdefault)
  have hposition : g.position = q := by
    rw [hpos, show (f.placed q).position = q - 1 from rfl, Nat.sub_add_cancel h1]
    exact Nat.mod_eq_of_lt (by omega)
  refine ⟨{ g with last_valid_position := if g.position = 0 then 0 else g.position - 1 }, ?_,
    hposition, hcur⟩
  rw [seek_placed h.record_size_ne (by omega), hnext]
  rfl

/-- Where the cursor is put from the end of the file: as far inside a record as the end is inside the
cut one. -/
theorem recordOffset_fromEnd {k : ℕ} (hheader : HEADER_SIZE ≤ c.length)
    (hk : wholeRecords c rs = k + (p + 1)) :
    recordOffset rs k + (cutRecord c rs).length + rs.toNat * (p + 1) = c.length := by
  rw [← length_cutRecord rs hheader, hk]
  unfold recordOffset
  ring

/-- There, the position is the one before the record. -/
theorem Opened.seekFromEnd {k : ℕ} (h : Opened c rs f) (hheader : HEADER_SIZE ≤ c.length)
    (hsize : c.length < 2 ^ 63) (hk : wholeRecords c rs = k + (p + 1)) :
    Opened c rs (f.seekFromEnd p) ∧
      (f.seekFromEnd p).file = openAt c (recordOffset rs k + (cutRecord c rs).length) ∧
      (f.seekFromEnd p).position = k ∧ (f.seekFromEnd p).current = {} ∧
      (f.seekFromEnd p).data_file = f.data_file := by
  have hrs : 0 < rs.toNat := by have := h.le_record_size; omega
  have hcut : (cutRecord c rs).length < rs.toNat := by
    have hlength := length_cutRecord rs hheader
    have hlt := length_lt_recordOffset (c := c) hrs
    omega
  have hlen : recordOffset rs k + (cutRecord c rs).length + f.record_size.toNat * (p + 1) =
      c.length := by
    rw [h.record_size]
    exact recordOffset_fromEnd hheader hk
  have hquot : (recordOffset rs k + (cutRecord c rs).length - HEADER_SIZE) / f.record_size.toNat = k := by
    rw [h.record_size, recordOffset, Nat.add_assoc, Nat.add_sub_cancel_left, Nat.mul_add_div hrs,
      Nat.div_eq_of_lt hcut, Nat.add_zero]
  have hle : HEADER_SIZE ≤ recordOffset rs k + (cutRecord c rs).length := by
    unfold recordOffset
    omega
  rw [seekFromEnd_eq h.on h.record_size_ne hsize hle hlen, hquot]
  exact ⟨⟨openAt_on _ _, h.version, h.record_size, h.le_record_size, h.data⟩, rfl, rfl, rfl, rfl⟩

/-- `next()` there counts the record before which the position is. It gives the point that is decoded at
the cursor, or goes on if that is the default point. -/
theorem Opened.next_fromEnd {k : ℕ} (h : Opened c rs f) (hheader : HEADER_SIZE ≤ c.length)
    (hsize : c.length < 2 ^ 63) (hk : wholeRecords c rs = k + (p + 1)) :
    ∃ g, (f.seekFromEnd p).next = some g ∧
      (g.position = k + 1 ∧
          g.current = decodedAt c f.data_file (recordOffset rs k + (cutRecord c rs).length) ∨
        (decodedAt c f.data_file (recordOffset rs k + (cutRecord c rs).length)).tsc = 0 ∧
          (g.current.tsc = 0 ∨ k + 1 < g.position)) := by
  have hlt : k + (p + 1) < 2 ^ 64 := by
    have hle := Nat.div_le_self (c.length - HEADER_SIZE) rs.toNat
    rw [← wholeRecords] at hle
    omega
  have hlen := recordOffset_fromEnd hheader hk
  obtain ⟨hopened, hfile, hpos, hcur, hdata⟩ := h.seekFromEnd hheader hsize hk
  -- The default point is the one that the loop compares with, so it is skipped.
  rw [← hdata]
  by_cases hblank : SyncPoint.operatorEq {} (decodedAt c (f.seekFromEnd p).data_file
      (recordOffset rs k + (cutRecord c rs).length)) = true
  · obtain ⟨g, hg, hor⟩ := hopened.next_blank hfile hlen (by omega) hcur hblank
    rw [hpos] at hor
    exact ⟨g, hg, .inr ⟨SyncPoint.tsc_of_default hblank, hor⟩⟩
  · rw [Nat.mul_succ] at hlen
    obtain ⟨g, hg, hgpos, hgcur⟩ := hopened.next_decoded hfile (by omega) hcur hblank
    rw [hpos, Nat.mod_eq_of_lt (by omega)] at hgpos
    exact ⟨g, hg, .inl ⟨hgpos, hgcur⟩⟩

/-! ## When they agree -/

/-- Both calls have one result. -/
theorem SyncFile.agreesFromEnd_results {s : SyncFile} (hg : (f.seekFromEnd p).next = some g)
    (hs : f.seek (f.sync_point_count - p) = some s) :
    f.AgreesFromEnd p ↔ g.position = s.position ∧ g.current = s.current := by
  constructor
  · rintro ⟨g', s', hg', hs', hsame⟩
    rw [hg] at hg'
    rw [hs] at hs'
    cases hg'
    cases hs'
    exact hsame
  · exact fun hsame => ⟨g, s, hg, hs, hsame⟩

/-- The exact condition, in a file whose whole records have a TSC. -/
theorem Opened.agreesFromEnd_iff (h : Opened c rs f) (hheader : HEADER_SIZE ≤ c.length)
    (hsize : c.length < 2 ^ 63) (hcount : f.sync_point_count = wholeRecords c rs)
    (htsc : ∀ k < wholeRecords c rs, (recordOf c rs k).tsc ≠ 0) (hp : p < wholeRecords c rs) :
    f.AgreesFromEnd p ↔
      decodedAt c f.data_file
          (recordOffset rs (wholeRecords c rs - (p + 1)) + (cutRecord c rs).length) =
        decodedAt c f.data_file (recordOffset rs (wholeRecords c rs - (p + 1))) := by
  obtain ⟨k, hk⟩ : ∃ k, wholeRecords c rs = k + (p + 1) := ⟨_, (Nat.sub_add_cancel hp).symm⟩
  have hktsc : (decodedAt c f.data_file (recordOffset rs k)).tsc ≠ 0 := by
    rw [decodedAt_tsc]
    exact htsc k (by omega)
  obtain ⟨s, hs, hspos, hscur⟩ :=
    h.seek_record (q := k + 1) hsize (by omega) (by omega) (htsc k (by omega))
  rw [Nat.add_sub_cancel] at hscur
  obtain ⟨g, hg, hfromEnd⟩ := h.next_fromEnd hheader hsize hk
  have hseek : f.seek (f.sync_point_count - p) = some s := by
    rw [show f.sync_point_count - p = k + 1 by omega]
    exact hs
  rw [SyncFile.agreesFromEnd_results hg hseek, hspos, hscur, hk, Nat.add_sub_cancel]
  rcases hfromEnd with ⟨hpos, hcur⟩ | ⟨hzero, hor⟩
  · rw [hpos, hcur]
    exact and_iff_right rfl
  · -- `next()` took the bytes for the default point, so it has gone past the record.
    refine iff_of_false ?_ fun heq => hktsc (heq ▸ hzero)
    rintro ⟨hpos, hcur⟩
    rcases hor with hgzero | hlt
    · exact hktsc (hcur ▸ hgzero)
    · omega

/-- The calls that return keep a version-3 file open, and its records counted. -/
theorem Accepts.run {ok : SyncFile → Call → Prop} (h : Accepts c data f)
    (hheader : HEADER_SIZE ≤ c.length) (hsize : c.length < 2 ^ 63) (hrun : Run ok f g) :
    Opened c f.record_size g ∧ g.sync_point_count = wholeRecords c f.record_size := by
  have hkept : KeptByData fun _ _ => True := ⟨fun _ _ _ _ _ => trivial, fun _ _ _ => trivial⟩
  obtain ⟨hopened, hcount, -⟩ :=
    hrun.opened hkept ⟨h.opened.1, h.count hheader (by omega), trivial⟩
  exact ⟨hopened, hcount⟩

/-- In every state that calls reach on a version-3 file that `load` accepts. -/
theorem seekFromEnd_agrees_iff (c : List UInt8) (data : Option (List UInt8)) (f₀ f : SyncFile) (p : ℕ)
    (h₀ : Accepts c data f₀) (hheader : HEADER_SIZE ≤ c.length) (hsize : c.length < 2 ^ 63)
    (htsc : ∀ k < wholeRecords c f₀.record_size, (recordOf c f₀.record_size k).tsc ≠ 0)
    (hrun : Run (fun _ _ => True) f₀ f) (hp : p < f.sync_point_count) :
    f.AgreesFromEnd p ↔
      decodedAt c f.data_file (recordOffset f₀.record_size (f.sync_point_count - (p + 1)) +
          (cutRecord c f₀.record_size).length) =
        decodedAt c f.data_file (recordOffset f₀.record_size (f.sync_point_count - (p + 1))) := by
  obtain ⟨hopened, hcount⟩ := h₀.run hheader hsize hrun
  have hiff := hopened.agreesFromEnd_iff hheader hsize hcount htsc (hcount ▸ hp)
  rwa [← hcount] at hiff

/-- A file that ends after one record and the first byte of another. -/
def brokenOff (record : List UInt8) (byte : UInt8) : List UInt8 := header ++ (record ++ [byte])

/-- It has one whole record, and one byte more. -/
theorem brokenOff_accepts {record : List UInt8} (h : record.length = 256) (byte : UInt8) :
    HEADER_SIZE ≤ (brokenOff record byte).length ∧ (brokenOff record byte).length < 2 ^ 63 ∧
      wholeRecords (brokenOff record byte) 256 = 1 ∧ (cutRecord (brokenOff record byte) 256).length = 1 ∧
      ∃ f, Accepts (brokenOff record byte) none f ∧ f.record_size = 256 ∧ f.sync_point_count = 1 := by
  have hlen : (brokenOff record byte).length = HEADER_SIZE + 257 := by
    simp [brokenOff, length_header, h]
  have hheader : HEADER_SIZE ≤ (brokenOff record byte).length := by omega
  have hsize : (brokenOff record byte).length < 2 ^ 63 := by rw [hlen]; decide
  have hwhole : wholeRecords (brokenOff record byte) 256 = 1 := by
    rw [wholeRecords, hlen, Nat.add_sub_cancel_left]
    rfl
  refine ⟨hheader, hsize, hwhole, ?_, ?_⟩
  · rw [cutRecord, List.length_drop, hlen, hwhole]
    rfl
  · obtain ⟨f, hf, hrs⟩ : ∃ f, Accepts (brokenOff record byte) none f ∧ f.record_size = 256 :=
      exists_accepts_header (record ++ [byte])
    exact ⟨f, hf, hrs, by rw [hf.count hheader (by omega), hrs, hwhole]⟩

/-- In a file all of whose bytes after the header are the same, the record and the bytes after its first
one decode to the same point. -/
theorem seekFromEnd_agrees_ones : ∃ f, Accepts (brokenOff (List.replicate 256 1) 1) none f ∧
    f.AgreesFromEnd 0 := by
  have hlen : (List.replicate 256 (1 : UInt8)).length = 256 := List.length_replicate
  obtain ⟨hheader, hsize, hwhole, hcut, f, hf, hrs, hcount⟩ := brokenOff_accepts hlen 1
  have hrecord (o : ℕ) : recordAt (brokenOff (List.replicate 256 1) 1) (HEADER_SIZE + o) =
      recordAt (List.replicate 256 1 ++ [1]) o := by
    rw [← length_header]
    exact recordAt_append_right header _ o
  have hsame : recordAt (List.replicate 256 1 ++ [1]) 1 = recordAt (List.replicate 256 1 ++ [1]) 0 := by
    decide +kernel
  refine ⟨f, hf, (seekFromEnd_agrees_iff _ none f f 0 hf hheader hsize ?_ .start ?_).mpr ?_⟩
  · intro k hk
    rw [hrs] at hk ⊢
    obtain rfl : k = 0 := by omega
    decide +kernel
  · rw [hcount]
    decide
  · rw [hcount, hrs, hcut]
    show decodedAt _ _ (HEADER_SIZE + 1) = decodedAt _ _ (HEADER_SIZE + 0)
    simp only [decodedAt, hrecord, hsame]

/-- After a record with the timestamp 1, they do not. -/
theorem not_seekFromEnd_agrees : ¬ ∀ (c : List UInt8) (data : Option (List UInt8)) (f₀ f : SyncFile)
    (p : ℕ), Accepts c data f₀ → HEADER_SIZE ≤ c.length → c.length < 2 ^ 63 →
      (∀ k < wholeRecords c f₀.record_size, (recordOf c f₀.record_size k).tsc ≠ 0) →
      Run (fun _ _ => True) f₀ f → p < f.sync_point_count → f.AgreesFromEnd p := by
  intro halways
  obtain ⟨hheader, hsize, hwhole, hcut, f, hf, hrs, hcount⟩ :=
    brokenOff_accepts (SyncRecord.simple 0xff 1 7 5).length_bytes 0
  have htsc : ∀ k < wholeRecords (brokenOff (SyncRecord.simple 0xff 1 7 5).bytes 0) 256,
      (recordOf (brokenOff (SyncRecord.simple 0xff 1 7 5).bytes 0) 256 k).tsc ≠ 0 := by
    intro k hk
    obtain rfl : k = 0 := by omega
    decide +kernel
  have hopened := hf.opened.1
  have hagrees := halways _ none f f 0 hf hheader hsize (by rw [hrs]; exact htsc) .start
    (by rw [hcount]; decide)
  rw [hrs] at hopened
  have heq := (hopened.agreesFromEnd_iff hheader hsize (hcount.trans hwhole.symm) htsc
    (by rw [hwhole]; decide)).mp hagrees
  rw [hwhole, hcut] at heq
  have htscs := congrArg SyncPoint.tsc heq
  rw [decodedAt_tsc, decodedAt_tsc] at htscs
  exact absurd htscs (by decide +kernel)

end

end RvnSyncPoint
