import Mathlib.Tactic

/-!
# Binary input file streams

The part of `std::ifstream` that a reader of binary files uses: opening and closing, `read`, `seekg`
from the start and from the end, `tellg`, `clear`, and the three state bits. The file's bytes do not
change while the stream is open, and reading them does not fail, so nothing sets `badbit`.

A `read` that meets the end of the file delivers what is left and sets `eofbit` and `failbit`. In a
stream that is not good, `read` delivers nothing and sets `failbit`. A `seekg` before the start of
the file, or to an offset that a signed 64-bit number does not hold, sets `failbit`; one past the end of
the file is allowed, and the next `read` meets the end.
-/

namespace RvnSyncPoint

/-- A file stream: the bytes of the file that is open, the cursor in it, and the state bits. -/
structure InputStream where
  /-- The bytes of the open file. -/
  content : List UInt8
  /-- The cursor, in bytes from the start of the file. -/
  cursor : ℕ
  /-- Is a file open? -/
  is_open : Bool
  eofbit : Bool
  failbit : Bool
  badbit : Bool
deriving DecidableEq

namespace InputStream

/-- A stream with no file. -/
def new : InputStream := ⟨[], 0, false, false, false, false⟩

/-- No state bit is set. -/
def good (s : InputStream) : Bool := !s.eofbit && !s.failbit && !s.badbit

/-- `fail()`: a stream operation failed. -/
def fail (s : InputStream) : Bool := s.failbit || s.badbit

/-- `close()`, which fails when no file is open. -/
def close (s : InputStream) : InputStream :=
  if s.is_open then { s with content := [], cursor := 0, is_open := false }
  else { s with failbit := true }

/-- `open()` of a file with the given bytes, or of one that cannot be opened (`none`). Opening clears
the state bits, and failing to open sets `failbit`. -/
def openFile (file : Option (List UInt8)) (s : InputStream) : InputStream :=
  match file with
  | some content => ⟨content, 0, true, false, false, false⟩
  | none => { s with failbit := true }

/-- `clear()`. -/
def clear (s : InputStream) : InputStream :=
  { s with eofbit := false, failbit := false, badbit := false }

/-- The stream can be moved to the offset: it is not before the start of the file, and a signed 64-bit
number holds it. (A file has less than `2 ^ 63` bytes. Contents of more, which nothing here excludes, are
taken to be reached all through.) -/
def Seekable (content : List UInt8) (pos : ℤ) : Prop :=
  0 ≤ pos ∧ (pos < 2 ^ 63 ∨ pos ≤ content.length)

instance (content : List UInt8) (pos : ℤ) : Decidable (Seekable content pos) :=
  inferInstanceAs (Decidable (_ ∧ _))

/-- Moves the cursor of an open file that has not failed to `pos`, or fails. -/
def moveTo (pos : ℤ) (s : InputStream) : InputStream :=
  if s.fail then s
  else if s.is_open ∧ Seekable s.content pos then { s with cursor := pos.toNat }
  else { s with failbit := true }

/-- `seekg(pos)`, which begins by clearing `eofbit`. -/
def seekg (pos : ℤ) (s : InputStream) : InputStream := { s with eofbit := false }.moveTo pos

/-- `seekg(off, std::ios_base::end)`. -/
def seekgEnd (off : ℤ) (s : InputStream) : InputStream :=
  { s with eofbit := false }.moveTo (s.content.length + off)

@[simp]
theorem moveTo_content (pos : ℤ) (s : InputStream) : (s.moveTo pos).content = s.content := by
  unfold moveTo
  split_ifs <;> rfl

@[simp]
theorem moveTo_is_open (pos : ℤ) (s : InputStream) : (s.moveTo pos).is_open = s.is_open := by
  unfold moveTo
  split_ifs <;> rfl

@[simp]
theorem seekg_content (pos : ℤ) (s : InputStream) : (s.seekg pos).content = s.content :=
  moveTo_content pos _

@[simp]
theorem seekg_is_open (pos : ℤ) (s : InputStream) : (s.seekg pos).is_open = s.is_open :=
  moveTo_is_open pos _

@[simp]
theorem seekg_eofbit (pos : ℤ) (s : InputStream) : (s.seekg pos).eofbit = false := by
  unfold seekg moveTo
  split_ifs <;> rfl

@[simp]
theorem seekg_badbit (pos : ℤ) (s : InputStream) : (s.seekg pos).badbit = s.badbit := by
  unfold seekg moveTo
  split_ifs <;> rfl

@[simp]
theorem seekgEnd_content (off : ℤ) (s : InputStream) : (s.seekgEnd off).content = s.content :=
  moveTo_content _ _

@[simp]
theorem seekgEnd_is_open (off : ℤ) (s : InputStream) : (s.seekgEnd off).is_open = s.is_open :=
  moveTo_is_open _ _

/-- `tellg()`: the cursor, or `-1` in a stream that is not good or has no file. -/
def tellg (s : InputStream) : ℤ := if s.good && s.is_open then s.cursor else -1

/-- `read(_, length)`: the bytes delivered, which are fewer than `length` at the end of the file. -/
def read (length : ℕ) (s : InputStream) : List UInt8 × InputStream :=
  if s.good then
    let got := (s.content.drop s.cursor).take length
    if got.length = length then (got, { s with cursor := s.cursor + length })
    -- The end of the file is met only by a read past it, and fails it.
    else (got, { s with cursor := s.cursor + got.length, eofbit := true, failbit := true })
  else ([], { s with failbit := true })

@[simp]
theorem read_content (length : ℕ) (s : InputStream) : (s.read length).2.content = s.content := by
  unfold read
  dsimp only
  split_ifs <;> rfl

@[simp]
theorem read_is_open (length : ℕ) (s : InputStream) : (s.read length).2.is_open = s.is_open := by
  unfold read
  dsimp only
  split_ifs <;> rfl

end InputStream

end RvnSyncPoint
