import RvnSyncPoint.InputStream
import RvnSyncPoint.LittleEndian

/-!
# `streamable_file`

The reader that `sync_file`, `hardware_file` and `io_file` are built on (`include/streamable_file.h`,
`src/streamable_file.cpp`): an `ifstream` with its own end-of-file flag. Reads after the end of the
file give zeros, and a read that meets the end gives the bytes that are left followed by zeros.

The extractions `file >> value` are the readers `readUInt8`, ..., `readVector`, in the state monad
over the file.
-/

namespace RvnSyncPoint

open LittleEndian

/-- The conversion of a 64-bit unsigned value to a signed one. -/
def toInt64 (n : ℕ) : ℤ := Int.bmod n (2 ^ 64)

/-- The conversion of a signed value to a 64-bit unsigned one. -/
def toUInt64 (z : ℤ) : ℕ := (z % 2 ^ 64).toNat

theorem toInt64_of_lt {n : ℕ} (h : n < 2 ^ 63) : toInt64 n = n := by
  unfold toInt64
  exact Int.bmod_eq_of_le (by omega) (by omega)

theorem toInt64_neg {n : ℕ} (h : 2 ^ 63 ≤ n) (h' : n < 2 ^ 64) : toInt64 n < 0 := by
  unfold toInt64
  rw [Int.bmod_def]
  split_ifs <;> omega

theorem toUInt64_natCast {n : ℕ} (h : n < 2 ^ 64) : toUInt64 n = n := by
  unfold toUInt64
  omega

/-- A basic file: the stream, and the flags `eof_` and `opened_`. -/
structure StreamableFile where
  in_file : InputStream
  /-- Set if the last read operation failed or the end of the file is reached. -/
  eof : Bool
  /-- Was a scenario file opened? -/
  opened : Bool
deriving DecidableEq

namespace StreamableFile

/-- The constructor, which leaves `opened_` with whatever value `opened` its memory holds. -/
def new (opened : Bool) : StreamableFile := ⟨.new, true, opened⟩

/-- `check_eof()`. -/
def checkEof (f : StreamableFile) : StreamableFile :=
  { f with eof := f.in_file.badbit || f.in_file.eofbit || !f.in_file.is_open }

/-- `load()` of a file with the given bytes, or of one that cannot be opened. -/
def load (file : Option (List UInt8)) (f : StreamableFile) : StreamableFile :=
  let in_file := f.in_file.close.openFile file
  checkEof { in_file, eof := false, opened := in_file.is_open }

/-- `close()`. -/
def close (f : StreamableFile) : StreamableFile := ⟨f.in_file.close, true, false⟩

/-- `seek()`, whose 64-bit unsigned argument the stream takes as a signed offset. -/
def seek (pos : ℕ) (f : StreamableFile) : StreamableFile :=
  checkEof { f with eof := false, in_file := f.in_file.clear.seekg (toInt64 pos) }

/-- `seek_from_end()`. The negation overflows for the least argument; the offset is then out of range
either way. -/
def seekFromEnd (pos : ℤ) (f : StreamableFile) : StreamableFile :=
  checkEof { f with eof := false, in_file := f.in_file.clear.seekgEnd (-pos) }

/-- `pos()`. -/
def pos (f : StreamableFile) : ℕ := toUInt64 f.in_file.tellg

/-- `read_raw()`: `length` bytes, of which those that the stream does not deliver are zero. -/
def readRaw (length : ℕ) : StateM StreamableFile (List UInt8) := fun f =>
  if f.eof then (List.replicate length 0, f)
  else
    let (got, in_file) := f.in_file.read length
    (got ++ List.replicate (length - got.length) 0, checkEof { f with in_file })

/-! ## The extractions -/

/-- `file >> ...`: what an extraction gives, and the file after it. -/
def extract {α : Type} (m : StateM StreamableFile α) (f : StreamableFile) : α × StreamableFile :=
  m.run f

@[simp]
theorem extract_pure {α : Type} (a : α) (f : StreamableFile) : extract (pure a) f = (a, f) := rfl

@[simp]
theorem extract_bind {α β : Type} (m : StateM StreamableFile α) (k : α → StateM StreamableFile β)
    (f : StreamableFile) : extract (m >>= k) f = extract (k (extract m f).1) (extract m f).2 :=
  (rfl)

/-- What `read_raw()` does on a file. -/
theorem extract_readRaw (length : ℕ) (f : StreamableFile) :
    extract (readRaw length) f =
      if f.eof then (List.replicate length 0, f)
      else ((f.in_file.read length).1 ++
          List.replicate (length - (f.in_file.read length).1.length) 0,
        checkEof { f with in_file := (f.in_file.read length).2 }) := rfl

/-- A `bool` is a byte, which is 0 or 1 where one was written. -/
def readBool : StateM StreamableFile Bool := do return ofBytes (← readRaw 1) != 0
def readUInt8 : StateM StreamableFile UInt8 := do return .ofNat (ofBytes (← readRaw 1))
def readUInt16 : StateM StreamableFile UInt16 := do return .ofNat (ofBytes (← readRaw 2))
def readUInt32 : StateM StreamableFile UInt32 := do return .ofNat (ofBytes (← readRaw 4))
def readUInt64 : StateM StreamableFile UInt64 := do return .ofNat (ofBytes (← readRaw 8))

/-- The element loop of `operator>>` for vectors: at most `size` elements, and none once the end of
the file is met. -/
def readElements {α : Type} (readItem : StateM StreamableFile α) : ℕ → StateM StreamableFile (List α)
  | 0 => return []
  | size + 1 => do
    if (← get).eof then return []
    -- The element in which the file ends is kept.
    let item ← readItem
    return item :: (← readElements readItem size)

/-- `operator>>` for vectors: a 64-bit size, then the elements. -/
def readVector {α : Type} (readItem : StateM StreamableFile α) : StateM StreamableFile (List α) := do
  let size ← readUInt64
  readElements readItem size.toNat

/-! ## Files in a good state -/

/-- The file is open on the bytes `c`. -/
structure On (c : List UInt8) (f : StreamableFile) : Prop where
  content : f.in_file.content = c
  is_open : f.in_file.is_open = true
  opened : f.opened = true

/-- A file open on the bytes `c`, with nothing failed, at the offset `o`. -/
def openAt (c : List UInt8) (o : ℕ) : StreamableFile :=
  ⟨⟨c, o, true, false, false, false⟩, false, true⟩

/-- A file open on the bytes `c`, after a read met the end of the file. -/
def endAt (c : List UInt8) (o : ℕ) : StreamableFile :=
  ⟨⟨c, o, true, true, true, false⟩, true, true⟩

/-- A file open on the bytes `c`, after a seek failed. -/
def failedAt (c : List UInt8) (o : ℕ) : StreamableFile :=
  ⟨⟨c, o, true, false, true, false⟩, false, true⟩

theorem openAt_on (c : List UInt8) (o : ℕ) : On c (openAt c o) := ⟨rfl, rfl, rfl⟩

theorem endAt_on (c : List UInt8) (o : ℕ) : On c (endAt c o) := ⟨rfl, rfl, rfl⟩

theorem failedAt_on (c : List UInt8) (o : ℕ) : On c (failedAt c o) := ⟨rfl, rfl, rfl⟩

@[simp] theorem openAt_eof (c : List UInt8) (o : ℕ) : (openAt c o).eof = false := rfl

@[simp] theorem openAt_opened (c : List UInt8) (o : ℕ) : (openAt c o).opened = true := rfl

@[simp] theorem endAt_eof (c : List UInt8) (o : ℕ) : (endAt c o).eof = true := rfl

/-- The offset of a file in a good state. -/
theorem openAt_pos {c : List UInt8} {o : ℕ} (h : o < 2 ^ 64) : (openAt c o).pos = o :=
  toUInt64_natCast h

/-- A file that can be opened is loaded at its first byte, whatever was open before. -/
@[simp]
theorem load_some (c : List UInt8) (f : StreamableFile) : f.load (some c) = openAt c 0 := rfl

/-- The file is closed, or was never opened. -/
structure Shut (f : StreamableFile) : Prop where
  eof : f.eof = true
  is_open : f.in_file.is_open = false
  opened : f.opened = false

/-- A file that cannot be opened. -/
theorem load_none_shut (f : StreamableFile) : Shut (f.load none) := by
  have hopen : (f.in_file.close.openFile none).is_open = false := by
    unfold InputStream.openFile InputStream.close
    split_ifs with h
    · rfl
    · simpa using h
  exact ⟨by simp [load, checkEof, hopen], hopen, hopen⟩

theorem load_none_eof (f : StreamableFile) : (f.load none).eof = true := (load_none_shut f).eof

theorem close_shut (f : StreamableFile) : Shut f.close := by
  refine ⟨rfl, ?_, rfl⟩
  unfold close InputStream.close
  split_ifs with h
  · rfl
  · simpa using h

/-- Seeking does not open a file. -/
theorem Shut.seek {f : StreamableFile} (h : Shut f) (pos : ℕ) : Shut (f.seek pos) := by
  have hopen : (f.in_file.clear.seekg (toInt64 pos)).is_open = false := by
    rw [InputStream.seekg_is_open]
    exact h.is_open
  exact ⟨by simp only [StreamableFile.seek, checkEof, hopen, Bool.not_false, Bool.or_true], hopen,
    h.opened⟩

/-- Nor does seeking from its end. -/
theorem Shut.seekFromEnd {f : StreamableFile} (h : Shut f) (pos : ℤ) : Shut (f.seekFromEnd pos) := by
  have hopen : (f.in_file.clear.seekgEnd (-pos)).is_open = false := by
    rw [InputStream.seekgEnd_is_open]
    exact h.is_open
  exact ⟨by simp only [StreamableFile.seekFromEnd, checkEof, hopen, Bool.not_false, Bool.or_true],
    hopen, h.opened⟩

/-- The offset of a file that is not open is `-1`. -/
theorem Shut.pos {f : StreamableFile} (h : Shut f) : f.pos = 2 ^ 64 - 1 := by
  rw [StreamableFile.pos, InputStream.tellg, h.is_open, Bool.and_false]
  rfl

/-- So it is at the end of a file, and after a seek failed. -/
theorem endAt_pos (c : List UInt8) (o : ℕ) : (endAt c o).pos = 2 ^ 64 - 1 := rfl

theorem failedAt_pos (c : List UInt8) (o : ℕ) : (failedAt c o).pos = 2 ^ 64 - 1 := rfl

/-- Seeking does not close a file. -/
theorem On.seek_on {c : List UInt8} {f : StreamableFile} (h : On c f) (pos : ℕ) :
    On c (f.seek pos) := by
  obtain ⟨hcontent, hopen, hopened⟩ := h
  constructor
  · rw [StreamableFile.seek, checkEof, InputStream.seekg_content]
    exact hcontent
  · rw [StreamableFile.seek, checkEof, InputStream.seekg_is_open]
    exact hopen
  · exact hopened

/-- Nor does seeking from its end. -/
theorem On.seekFromEnd_on {c : List UInt8} {f : StreamableFile} (h : On c f) (pos : ℤ) :
    On c (f.seekFromEnd pos) := by
  obtain ⟨hcontent, hopen, hopened⟩ := h
  constructor
  · rw [StreamableFile.seekFromEnd, checkEof, InputStream.seekgEnd_content]
    exact hcontent
  · rw [StreamableFile.seekFromEnd, checkEof, InputStream.seekgEnd_is_open]
    exact hopen
  · exact hopened

/-- Seeking in an open file takes back that its end was met. -/
theorem On.seek_eof {c : List UInt8} {f : StreamableFile} (h : On c f) (pos : ℕ) :
    (f.seek pos).eof = false := by
  have hopen := h.is_open
  rw [StreamableFile.seek, checkEof]
  simp [InputStream.clear, hopen]

/-- Seeking to an offset that the stream can represent puts an open file in a good state, whatever
happened before. -/
theorem On.seek {c : List UInt8} {f : StreamableFile} (h : On c f) {pos : ℕ} (hpos : pos < 2 ^ 63) :
    f.seek pos = openAt c pos := by
  obtain ⟨⟨content, cursor, is_open, e, b, d⟩, eof, opened⟩ := f
  obtain ⟨rfl, rfl, rfl⟩ := h
  have hseek : InputStream.Seekable content (pos : ℤ) := ⟨by omega, .inl (by omega)⟩
  simp [StreamableFile.seek, toInt64_of_lt hpos, InputStream.clear, InputStream.seekg,
    InputStream.moveTo, InputStream.fail, checkEof, openAt, hseek]

/-- Seeking to an offset that the stream takes for a negative one fails. -/
theorem On.seek_neg {c : List UInt8} {f : StreamableFile} (h : On c f) {pos : ℕ}
    (hpos : 2 ^ 63 ≤ pos) (hlt : pos < 2 ^ 64) : ∃ o, f.seek pos = failedAt c o := by
  obtain ⟨⟨content, cursor, is_open, e, b, d⟩, eof, opened⟩ := f
  obtain ⟨rfl, rfl, rfl⟩ := h
  have hneg : ¬ InputStream.Seekable content (toInt64 pos) :=
    fun hseek => absurd hseek.1 (not_le.mpr (toInt64_neg hpos hlt))
  exact ⟨cursor, by simp [StreamableFile.seek, hneg, InputStream.clear, InputStream.seekg,
    InputStream.moveTo, InputStream.fail, checkEof, failedAt]⟩

/-- A seek from the end to an offset that the stream can be moved to. -/
theorem On.seekFromEnd_seekable {c : List UInt8} {f : StreamableFile} (h : On c f) {pos : ℤ}
    (hpos : InputStream.Seekable c (c.length + -pos)) :
    f.seekFromEnd pos = openAt c (c.length + -pos).toNat := by
  obtain ⟨⟨content, cursor, is_open, e, b, d⟩, eof, opened⟩ := f
  obtain ⟨rfl, rfl, rfl⟩ := h
  simp [StreamableFile.seekFromEnd, InputStream.clear, InputStream.seekgEnd,
    InputStream.moveTo, InputStream.fail, checkEof, openAt, hpos]

/-- Seeking back from the end, by no more than the length of the file. -/
theorem On.seekFromEnd {c : List UInt8} {f : StreamableFile} (h : On c f) {pos : ℕ}
    (hpos : pos ≤ c.length) : f.seekFromEnd pos = openAt c (c.length - pos) := by
  have hnat : ((c.length : ℤ) + -(pos : ℤ)).toNat = c.length - pos := by omega
  rw [h.seekFromEnd_seekable ⟨by omega, .inr (by omega)⟩, hnat]

/-- A seek from the end to any other offset fails. -/
theorem On.seekFromEnd_failed {c : List UInt8} {f : StreamableFile} (h : On c f) {pos : ℤ}
    (hpos : ¬ InputStream.Seekable c (c.length + -pos)) : ∃ o, f.seekFromEnd pos = failedAt c o := by
  obtain ⟨⟨content, cursor, is_open, e, b, d⟩, eof, opened⟩ := f
  obtain ⟨rfl, rfl, rfl⟩ := h
  exact ⟨cursor, by simp [StreamableFile.seekFromEnd, InputStream.clear, InputStream.seekgEnd,
    InputStream.moveTo, InputStream.fail, checkEof, failedAt, hpos]⟩

/-! ## Reads -/

/-- A read inside the file delivers the bytes at the cursor. -/
theorem readRaw_openAt {c : List UInt8} {o n : ℕ} (h : o + n ≤ c.length) :
    extract (readRaw n) (openAt c o) = ((c.drop o).take n, openAt c (o + n)) := by
  have hlen : ((c.drop o).take n).length = n := by
    rw [List.length_take, List.length_drop]
    omega
  simp [extract_readRaw, openAt, InputStream.read, InputStream.good, hlen, checkEof]

/-- A read across the end of the file delivers what is left, followed by zeros. -/
theorem readRaw_openAt_short {c : List UInt8} {o n : ℕ} (h : c.length < o + n) (hn : 0 < n) :
    extract (readRaw n) (openAt c o) =
      (c.drop o ++ List.replicate (n - (c.length - o)) 0, endAt c (o + (c.length - o))) := by
  have hle : (c.drop o).length ≤ n := by
    rw [List.length_drop]
    omega
  have hne : c.length - o ≠ n := by omega
  simp [extract_readRaw, openAt, InputStream.read, InputStream.good, checkEof, endAt,
    List.take_of_length_le hle, hne]

/-- A read once the end of the file is met gives zeros and changes nothing. -/
theorem readRaw_eof {f : StreamableFile} (n : ℕ) (h : f.eof = true) :
    extract (readRaw n) f = (List.replicate n 0, f) := by
  simp [extract_readRaw, h]

theorem readUInt8_openAt {c : List UInt8} {o : ℕ} (h : o + 1 ≤ c.length) :
    extract readUInt8 (openAt c o) = (.ofNat (leAt c o 1), openAt c (o + 1)) := by
  simp only [readUInt8, extract_bind, readRaw_openAt h, extract_pure, leAt]

theorem readUInt16_openAt {c : List UInt8} {o : ℕ} (h : o + 2 ≤ c.length) :
    extract readUInt16 (openAt c o) = (.ofNat (leAt c o 2), openAt c (o + 2)) := by
  simp only [readUInt16, extract_bind, readRaw_openAt h, extract_pure, leAt]

theorem readUInt32_openAt {c : List UInt8} {o : ℕ} (h : o + 4 ≤ c.length) :
    extract readUInt32 (openAt c o) = (.ofNat (leAt c o 4), openAt c (o + 4)) := by
  simp only [readUInt32, extract_bind, readRaw_openAt h, extract_pure, leAt]

theorem readUInt64_openAt {c : List UInt8} {o : ℕ} (h : o + 8 ≤ c.length) :
    extract readUInt64 (openAt c o) = (.ofNat (leAt c o 8), openAt c (o + 8)) := by
  simp only [readUInt64, extract_bind, readRaw_openAt h, extract_pure, leAt]

/-- A number read where nothing is left is zero. -/
theorem readUInt64_end {c : List UInt8} {o : ℕ} (h : c.length ≤ o) :
    extract readUInt64 (openAt c o) = (0, endAt c o) := by
  have hsub : c.length - o = 0 := by omega
  have hread := readRaw_openAt_short (c := c) (o := o) (n := 8) (by omega) (by omega)
  simp only [readUInt64, extract_bind, hread, hsub, List.drop_eq_nil_of_le h]
  rfl

/-- Reads give zeros and change nothing. -/
def Silent (f : StreamableFile) : Prop := ∀ n, extract (readRaw n) f = (List.replicate n 0, f)

/-- So it is once the end of the file is met. -/
theorem Silent.of_eof {f : StreamableFile} (h : f.eof = true) : Silent f := fun n => readRaw_eof n h

/-- So it is once a seek before the start of the file has failed, which is not taken for the end. -/
theorem failedAt_silent (c : List UInt8) (o : ℕ) : Silent (failedAt c o) := by
  intro n
  simp [extract_readRaw, failedAt, InputStream.read, InputStream.good, checkEof]

section Silent

variable {f : StreamableFile} (h : Silent f)
include h

theorem readUInt8_silent : extract readUInt8 f = (0, f) := by
  simp only [readUInt8, extract_bind, h 1]
  rfl

theorem readUInt16_silent : extract readUInt16 f = (0, f) := by
  simp only [readUInt16, extract_bind, h 2]
  rfl

theorem readUInt32_silent : extract readUInt32 f = (0, f) := by
  simp only [readUInt32, extract_bind, h 4]
  rfl

theorem readUInt64_silent : extract readUInt64 f = (0, f) := by
  simp only [readUInt64, extract_bind, h 8]
  rfl

end Silent

/-- An extraction that does not close the file. -/
def KeepsOpen {α : Type} (m : StateM StreamableFile α) : Prop :=
  ∀ c f, On c f → On c (extract m f).2

theorem KeepsOpen.pure {α : Type} (a : α) : KeepsOpen (Pure.pure a : StateM StreamableFile α) :=
  fun _ _ h => h

theorem KeepsOpen.bind {α β : Type} {m : StateM StreamableFile α} {k : α → StateM StreamableFile β}
    (hm : KeepsOpen m) (hk : ∀ a, KeepsOpen (k a)) : KeepsOpen (m >>= k) :=
  fun c f h => hk (extract m f).1 c (extract m f).2 (hm c f h)

/-- Reading does not close a file, whatever state it is in. -/
theorem readRaw_keepsOpen (n : ℕ) : KeepsOpen (readRaw n) := by
  rintro c f ⟨hcontent, hopen, hopened⟩
  rw [extract_readRaw]
  split_ifs
  · exact ⟨hcontent, hopen, hopened⟩
  · constructor
    · rw [checkEof, InputStream.read_content]
      exact hcontent
    · rw [checkEof, InputStream.read_is_open]
      exact hopen
    · exact hopened

theorem readUInt8_keepsOpen : KeepsOpen readUInt8 :=
  (readRaw_keepsOpen 1).bind fun _ => .pure _
theorem readUInt16_keepsOpen : KeepsOpen readUInt16 :=
  (readRaw_keepsOpen 2).bind fun _ => .pure _
theorem readUInt32_keepsOpen : KeepsOpen readUInt32 :=
  (readRaw_keepsOpen 4).bind fun _ => .pure _
theorem readUInt64_keepsOpen : KeepsOpen readUInt64 :=
  (readRaw_keepsOpen 8).bind fun _ => .pure _

/-! ## Progress

A file that nothing made fail is open at an offset, or has met its end. Reads keep it so, and never go
back: what is left to read only shrinks. -/

/-- The file has met its end, or is in a good state on the bytes `c`. -/
def Healthy (c : List UInt8) (f : StreamableFile) : Prop := f.eof = true ∨ ∃ o, f = openAt c o

/-- How much is left to read, counting the end of the file itself. -/
def remaining (f : StreamableFile) : ℕ :=
  if f.eof then 0 else f.in_file.content.length - f.in_file.cursor + 1

theorem remaining_openAt (c : List UInt8) (o : ℕ) : remaining (openAt c o) = c.length - o + 1 := rfl

theorem remaining_eof {f : StreamableFile} (h : f.eof = true) : remaining f = 0 := by
  simp [remaining, h]

theorem remaining_pos {f : StreamableFile} (h : f.eof = false) : 0 < remaining f := by
  simp [remaining, h]

/-- A reader that keeps a file healthy and does not go back. -/
def Advances {α : Type} (m : StateM StreamableFile α) : Prop :=
  ∀ c f, Healthy c f → Healthy c (extract m f).2 ∧ remaining (extract m f).2 ≤ remaining f

theorem Advances.pure {α : Type} (a : α) : Advances (Pure.pure a : StateM StreamableFile α) :=
  fun _ _ h => ⟨h, le_rfl⟩

theorem Advances.bind {α β : Type} {m : StateM StreamableFile α} {k : α → StateM StreamableFile β}
    (hm : Advances m) (hk : ∀ a, Advances (k a)) : Advances (m >>= k) := by
  intro c f h
  obtain ⟨h1, hle1⟩ := hm c f h
  obtain ⟨h2, hle2⟩ := hk (extract m f).1 c (extract m f).2 h1
  exact ⟨h2, hle2.trans hle1⟩

/-- A read of at least one byte, from a file that has not met its end, leaves less to read. -/
theorem readRaw_advances (n : ℕ) (hn : 0 < n) (c : List UInt8) (f : StreamableFile)
    (h : Healthy c f) : Healthy c (extract (readRaw n) f).2 ∧
      (remaining (extract (readRaw n) f).2 < remaining f ∨ f.eof = true ∧ (extract (readRaw n) f).2 = f) := by
  rcases h with h | ⟨o, rfl⟩
  · rw [readRaw_eof n h]
    exact ⟨.inl h, .inr ⟨h, rfl⟩⟩
  · rcases Nat.lt_or_ge c.length (o + n) with hlt | hle
    · rw [readRaw_openAt_short hlt hn]
      refine ⟨.inl rfl, .inl ?_⟩
      show remaining (endAt c _) < _
      rw [remaining_eof rfl]
      exact remaining_pos rfl
    · rw [readRaw_openAt hle]
      refine ⟨.inr ⟨o + n, rfl⟩, .inl ?_⟩
      show remaining (openAt c (o + n)) < _
      rw [remaining_openAt, remaining_openAt]
      omega

/-- Reading bytes and converting them advances the file as reading the bytes does. -/
theorem readRaw_map_advances {α : Type} (g : List UInt8 → α) (n : ℕ) (hn : 0 < n) :
    Advances (do return g (← readRaw n)) := by
  intro c f h
  obtain ⟨hc, hlt | ⟨-, heq⟩⟩ := readRaw_advances n hn c f h
  · exact ⟨hc, hlt.le⟩
  · exact ⟨hc, (congrArg remaining heq).le⟩

/-- A 32-bit extraction leaves less to read, or the end of the file was met before it. -/
theorem readUInt32_progress (c : List UInt8) (f : StreamableFile) (h : Healthy c f) :
    Healthy c (extract readUInt32 f).2 ∧
      (remaining (extract readUInt32 f).2 < remaining f ∨
        f.eof = true ∧ (extract readUInt32 f).2 = f) :=
  readRaw_advances 4 (by omega) c f h

theorem readUInt8_advances : Advances readUInt8 := readRaw_map_advances _ 1 (by omega)
theorem readUInt32_advances : Advances readUInt32 := readRaw_map_advances _ 4 (by omega)
theorem readUInt64_advances : Advances readUInt64 := readRaw_map_advances _ 8 (by omega)

theorem readElements_advances {α : Type} {readItem : StateM StreamableFile α}
    (h : Advances readItem) (size : ℕ) : Advances (readElements readItem size) := by
  induction size with
  | zero => exact Advances.pure []
  | succ size ih =>
    refine Advances.bind (fun c f hf => ⟨hf, le_rfl⟩) fun f => ?_
    split_ifs
    · exact Advances.pure []
    · exact Advances.bind h fun item => Advances.bind ih fun items => Advances.pure _

theorem readVector_advances {α : Type} {readItem : StateM StreamableFile α}
    (h : Advances readItem) : Advances (readVector readItem) :=
  Advances.bind readUInt64_advances fun size => readElements_advances h size.toNat

end StreamableFile

end RvnSyncPoint
