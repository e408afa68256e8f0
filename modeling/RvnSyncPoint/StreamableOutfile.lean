import RvnSyncPoint.LittleEndian

/-!
# `streamable_outfile`

The writer of binary files (`include/streamable_outfile.h`): an `ofstream` to which every insertion
`out << value` appends the bytes of the value. Writing does not fail.
-/

namespace RvnSyncPoint

open LittleEndian

/-- A file that is being written, as the bytes written so far. -/
structure StreamableOutfile where
  written : List UInt8
deriving DecidableEq

namespace StreamableOutfile

/-- `open()`, which truncates the file. -/
def opened : StreamableOutfile := ⟨[]⟩

/-- `write_raw()`. -/
def writeRaw (bytes : List UInt8) (out : StreamableOutfile) : StreamableOutfile :=
  ⟨out.written ++ bytes⟩

def writeBool (v : Bool) : StreamableOutfile → StreamableOutfile := writeRaw (toBytes 1 v.toNat)
def writeUInt8 (v : UInt8) : StreamableOutfile → StreamableOutfile := writeRaw (toBytes 1 v.toNat)
def writeUInt16 (v : UInt16) : StreamableOutfile → StreamableOutfile := writeRaw (toBytes 2 v.toNat)
def writeUInt32 (v : UInt32) : StreamableOutfile → StreamableOutfile := writeRaw (toBytes 4 v.toNat)
def writeUInt64 (v : UInt64) : StreamableOutfile → StreamableOutfile := writeRaw (toBytes 8 v.toNat)

/-- `operator<<` for strings: the 64-bit length, then the characters. Their number is passed to
`write_raw` as a 32-bit one. -/
def writeString (data : List UInt8) (out : StreamableOutfile) : StreamableOutfile :=
  let length := UInt64.ofNat data.length
  (out.writeUInt64 length).writeRaw (data.take length.toUInt32.toNat)

/-- `operator<<` for vectors: the 64-bit size, then the elements. -/
def writeVector {α : Type} (writeItem : α → StreamableOutfile → StreamableOutfile) (data : List α)
    (out : StreamableOutfile) : StreamableOutfile :=
  data.foldl (fun out item => writeItem item out) (out.writeUInt64 (.ofNat data.length))

@[simp]
theorem written_writeRaw (bytes : List UInt8) (out : StreamableOutfile) :
    (out.writeRaw bytes).written = out.written ++ bytes := rfl

@[simp]
theorem written_writeUInt8 (v : UInt8) (out : StreamableOutfile) :
    (out.writeUInt8 v).written = out.written ++ [v] := by
  rw [writeUInt8, written_writeRaw, toBytes, UInt8.ofNat_toNat]
  rfl

@[simp]
theorem written_writeBool (v : Bool) (out : StreamableOutfile) :
    (out.writeBool v).written = out.written ++ toBytes 1 v.toNat := rfl

@[simp]
theorem written_writeUInt16 (v : UInt16) (out : StreamableOutfile) :
    (out.writeUInt16 v).written = out.written ++ toBytes 2 v.toNat := rfl

@[simp]
theorem written_writeUInt32 (v : UInt32) (out : StreamableOutfile) :
    (out.writeUInt32 v).written = out.written ++ toBytes 4 v.toNat := rfl

@[simp]
theorem written_writeUInt64 (v : UInt64) (out : StreamableOutfile) :
    (out.writeUInt64 v).written = out.written ++ toBytes 8 v.toNat := rfl

/-- The bytes of a vector: its size, and those of each element. -/
theorem written_writeVector {α : Type} {writeItem : α → StreamableOutfile → StreamableOutfile}
    (encode : α → List UInt8) (data : List α)
    (h : ∀ item ∈ data, ∀ out, (writeItem item out).written = out.written ++ encode item)
    (out : StreamableOutfile) : (out.writeVector writeItem data).written =
      out.written ++ (toBytes 8 (UInt64.ofNat data.length).toNat ++ data.flatMap encode) := by
  have hitems (out : StreamableOutfile) :
      (data.foldl (fun out item => writeItem item out) out).written =
        out.written ++ data.flatMap encode := by
    induction data generalizing out with
    | nil => simp
    | cons item data ih =>
      rw [List.foldl_cons, ih fun item' hitem' => h item' (List.mem_cons_of_mem item hitem'),
        h item List.mem_cons_self, List.flatMap_cons, List.append_assoc]
  rw [writeVector, hitems, written_writeUInt64, List.append_assoc]

/-- The bytes of a vector of bytes. -/
@[simp]
theorem written_writeVector_uint8 (data : List UInt8) (out : StreamableOutfile) :
    (out.writeVector writeUInt8 data).written =
      out.written ++ toBytes 8 (UInt64.ofNat data.length).toNat ++ data := by
  rw [written_writeVector (fun b => [b]) data fun item _ out => written_writeUInt8 item out,
    List.append_assoc, List.flatMap_singleton']

end StreamableOutfile

end RvnSyncPoint
