import Mathlib.Data.List.TakeWhile
import RvnSyncPoint.Extractor

/-!
# Streamed values

The values that `streamable_outfile` writes and `streamable_file` reads: booleans, unsigned integers,
strings and vectors, and the fields of a structure one after the other. What was written is read back to
its last byte, but a string only up to its first zero (`StreamType.read_reads`). So a sequence of values
is read back as it was written exactly when no string of it has a zero byte (`roundTrips_iff`).
-/

namespace RvnSyncPoint

open LittleEndian StreamableFile

/-- The types with insertion and extraction operators. -/
inductive StreamType where
  | bool
  | uint8
  | uint16
  | uint32
  | uint64
  | string
  | vector (t : StreamType)
  /-- Two fields of a structure, which are streamed one after the other. -/
  | pair (t u : StreamType)
deriving DecidableEq

namespace StreamType

/-- The values of a type. A string is its characters. -/
@[reducible]
def Value : StreamType → Type
  | bool => Bool
  | uint8 => UInt8
  | uint16 => UInt16
  | uint32 => UInt32
  | uint64 => UInt64
  | string => List UInt8
  | vector t => List t.Value
  | pair t u => t.Value × u.Value

/-- `out << value`. -/
def write : (t : StreamType) → t.Value → StreamableOutfile → StreamableOutfile
  | bool, v => StreamableOutfile.writeBool v
  | uint8, v => StreamableOutfile.writeUInt8 v
  | uint16, v => StreamableOutfile.writeUInt16 v
  | uint32, v => StreamableOutfile.writeUInt32 v
  | uint64, v => StreamableOutfile.writeUInt64 v
  | string, v => StreamableOutfile.writeString v
  | vector t, v => StreamableOutfile.writeVector t.write v
  | pair t u, v => fun out => u.write v.2 (t.write v.1 out)

/-- `file >> value`. -/
def read (m : StringMemory) : (t : StreamType) → Extractor t.Value
  | bool => readBool
  | uint8 => readUInt8
  | uint16 => readUInt16
  | uint32 => readUInt32
  | uint64 => readUInt64
  | string => readString m
  | vector t => readVectorT (t.read m)
  | pair t u => do
    let v ← t.read m
    let w ← u.read m
    return (v, w)

/-- The bytes of a value. -/
def encode : (t : StreamType) → t.Value → List UInt8
  | bool, v => toBytes 1 v.toNat
  | uint8, v => toBytes 1 v.toNat
  | uint16, v => toBytes 2 v.toNat
  | uint32, v => toBytes 4 v.toNat
  | uint64, v => toBytes 8 v.toNat
  | string, v => toBytes 8 (UInt64.ofNat v.length).toNat ++ v
  | vector t, v => toBytes 8 (UInt64.ofNat v.length).toNat ++ v.flatMap t.encode
  | pair t u, v => t.encode v.1 ++ u.encode v.2

/-- A value with its strings cut at their first zero. -/
def cut : (t : StreamType) → t.Value → t.Value
  | bool, v => v
  | uint8, v => v
  | uint16, v => v
  | uint32, v => v
  | uint64, v => v
  | string, v => List.takeWhile (· != 0) v
  | vector t, v => List.map t.cut v
  | pair t u, v => (t.cut v.1, u.cut v.2)

/-- No string of a value has a zero byte. -/
def NulFree : (t : StreamType) → t.Value → Prop
  | bool, _ => True
  | uint8, _ => True
  | uint16, _ => True
  | uint32, _ => True
  | uint64, _ => True
  | string, v => ∀ b ∈ v, b ≠ 0
  | vector t, v => ∀ w ∈ v, t.NulFree w
  | pair t u, v => t.NulFree v.1 ∧ u.NulFree v.2

/-- The lengths of the strings of a value are 32-bit numbers, and the sizes of its vectors 64-bit ones. -/
def Short : (t : StreamType) → t.Value → Prop
  | bool, _ => True
  | uint8, _ => True
  | uint16, _ => True
  | uint32, _ => True
  | uint64, _ => True
  | string, v => v.length < 2 ^ 32
  | vector t, v => v.length < 2 ^ 64 ∧ ∀ w ∈ v, t.Short w
  | pair t u, v => t.Short v.1 ∧ u.Short v.2

/-- A value is left as it is when its strings are cut, exactly when there is nothing to cut. -/
theorem cut_eq_iff (t : StreamType) (v : t.Value) : t.cut v = v ↔ t.NulFree v := by
  induction t with
  | bool => exact iff_of_true rfl trivial
  | uint8 => exact iff_of_true rfl trivial
  | uint16 => exact iff_of_true rfl trivial
  | uint32 => exact iff_of_true rfl trivial
  | uint64 => exact iff_of_true rfl trivial
  | string =>
    show v.takeWhile (· != 0) = v ↔ ∀ b ∈ v, b ≠ 0
    rw [List.takeWhile_eq_self_iff]
    simp only [bne_iff_ne]
  | vector t ih =>
    have hitems : v.map t.cut = v.map id ↔ ∀ w ∈ v, t.cut w = id w := List.map_inj_left
    rw [List.map_id] at hitems
    exact hitems.trans (forall₂_congr fun w _ => ih w)
  | pair t u iht ihu =>
    obtain ⟨v, w⟩ := v
    show (t.cut v, u.cut w) = (v, w) ↔ t.NulFree v ∧ u.NulFree w
    rw [Prod.mk.injEq, iht, ihu]

/-! ## Writing -/

/-- What the insertions of a value write. -/
theorem written_write (t : StreamType) (v : t.Value) (h : t.Short v) (out : StreamableOutfile) :
    (t.write v out).written = out.written ++ t.encode v := by
  -- The length of a string is written from 32 bits, into which a short value fits.
  induction t generalizing out with
  | bool => rfl
  | uint8 => rfl
  | uint16 => rfl
  | uint32 => rfl
  | uint64 => rfl
  | string =>
    have hlt : v.length < 2 ^ 64 := lt_trans h (by norm_num)
    have hlength : (UInt64.ofNat v.length).toUInt32.toNat = v.length := by
      rw [UInt64.toNat_toUInt32, UInt64.toNat_ofNat_of_lt' hlt, Nat.mod_eq_of_lt h]
    show (out.writeString v).written = _
    rw [StreamableOutfile.writeString, hlength, List.take_length]
    simp [encode]
  | vector t ih =>
    obtain ⟨-, hitems⟩ := h
    show (out.writeVector t.write v).written = _
    rw [StreamableOutfile.written_writeVector t.encode v fun w hw out => ih w (hitems w hw) out]
    simp [encode]
  | pair t u iht ihu =>
    show (u.write v.2 (t.write v.1 out)).written = _
    rw [ihu v.2 h.2, iht v.1 h.1, List.append_assoc]
    rfl

/-! ## Reading -/

/-- The buffer of a string that is there holds its characters. -/
theorem readBuffer_reads (m : StringMemory) (s : List UInt8) (h : s.length < 2 ^ 32) :
    Reads (readBuffer m (.ofNat s.length)) s s := by
  have hlt : s.length < 2 ^ 64 := lt_trans h (by norm_num)
  have hsize : (UInt64.ofNat s.length).toNat = s.length := UInt64.toNat_ofNat_of_lt' hlt
  have hlength : (UInt64.ofNat s.length).toUInt32.toNat = s.length := by
    rw [UInt64.toNat_toUInt32, hsize, Nat.mod_eq_of_lt h]
  intro c o hc
  have hread : extract (readRaw (UInt64.ofNat s.length).toUInt32.toNat) (openAt c o) =
      (s, openAt c (o + s.length)) := readRaw_reads hlength.symm c o hc
  have hget : extract (get : StateM StreamableFile StreamableFile) (openAt c o) =
      (openAt c o, openAt c o) := rfl
  rw [readBuffer, extract_bind, hget, extract_bind, hread, extract_pure, hsize, Nat.sub_self]
  simp

/-- A string is read back up to its first zero. -/
theorem readString_reads (m : StringMemory) (s : List UInt8) (h : s.length < 2 ^ 32) :
    TryReads (readString m) (toBytes 8 (UInt64.ofNat s.length).toNat ++ s) (s.takeWhile (· != 0)) := by
  have hlt : s.length < 2 ^ 64 := lt_trans h (by norm_num)
  have hsize : (UInt64.ofNat s.length).toNat = s.length := UInt64.toNat_ofNat_of_lt' hlt
  have hroom : ¬ m.max_size < (UInt64.ofNat s.length).toNat := by
    have hmax := m.le_max_size
    omega
  refine (readUInt64_reads (UInt64.ofNat s.length)).lift.bind ?_
  rw [if_neg hroom]
  exact TryReads.map (List.takeWhile (· != 0)) (readBuffer_reads m s h).lift

/-- What was written is read back to its last byte, with its strings cut at their first zero. -/
theorem read_reads (m : StringMemory) (t : StreamType) (v : t.Value) (h : t.Short v) :
    TryReads (t.read m) (t.encode v) (t.cut v) := by
  induction t with
  | bool => exact (readBool_reads v).lift
  | uint8 =>
    have hbyte : encode uint8 v = [v] := by simp [encode, toBytes]
    rw [hbyte]
    exact (readUInt8_reads v).lift
  | uint16 => exact (readUInt16_reads v).lift
  | uint32 => exact (readUInt32_reads v).lift
  | uint64 => exact (readUInt64_reads v).lift
  | string => exact readString_reads m v h
  | vector t ih =>
    obtain ⟨hlt, hitems⟩ := h
    have hsize : (UInt64.ofNat v.length).toNat = v.length := UInt64.toNat_ofNat_of_lt' hlt
    refine (readUInt64_reads _).lift.bind ?_
    rw [hsize]
    exact readElementsT_reads v fun w hw => ih w (hitems w hw)
  | pair t u iht ihu =>
    exact (iht v.1 h.1).bind ((ihu v.2 h.2).map fun w => (t.cut v.1, w))

end StreamType

/-! ## Sequences of values -/

/-- A value of some type. -/
structure StreamValue where
  type : StreamType
  value : type.Value

/-- `out << v << ...`. -/
def writeAll (vs : List StreamValue) (out : StreamableOutfile) : StreamableOutfile :=
  vs.foldl (fun out v => v.type.write v.value out) out

/-- `file >> v >> ...`, into values of the given types. -/
def readAll (m : StringMemory) : List StreamType → Extractor (List StreamValue)
  | [] => return []
  | t :: ts => do
    let v ← t.read m
    return ⟨t, v⟩ :: (← readAll m ts)

namespace StreamValue

/-- The lengths of the strings of a value are 32-bit numbers, and the sizes of its vectors 64-bit ones. -/
def Short (v : StreamValue) : Prop := v.type.Short v.value

/-- No string of a value has a zero byte. -/
def NulFree (v : StreamValue) : Prop := v.type.NulFree v.value

/-- A value with its strings cut at their first zero. -/
def cut (v : StreamValue) : StreamValue := ⟨v.type, v.type.cut v.value⟩

theorem cut_eq_iff (v : StreamValue) : v.cut = v ↔ v.NulFree := by
  obtain ⟨t, v⟩ := v
  rw [cut, StreamValue.mk.injEq, heq_eq_eq, t.cut_eq_iff]
  exact and_iff_right rfl

end StreamValue

/-- What is read of a file in which the values were written, and the reader after it. -/
def reread (m : StringMemory) (vs : List StreamValue) (f : StreamableFile) :
    Option (List StreamValue) × StreamableFile :=
  tryExtract (readAll m (vs.map (·.type))) (f.load (some (writeAll vs .opened).written))

/-- The values are read back as they were written, to the end of the file, which is not met. -/
def RoundTrips (m : StringMemory) (vs : List StreamValue) : Prop :=
  ∀ f : StreamableFile, (reread m vs f).1 = some vs ∧
    (reread m vs f).2.in_file.cursor = (writeAll vs .opened).written.length ∧
    (reread m vs f).2.eof = false

section

variable {m : StringMemory} {vs : List StreamValue}

theorem written_writeAll (h : ∀ v ∈ vs, v.Short) (out : StreamableOutfile) :
    (writeAll vs out).written = out.written ++ vs.flatMap fun v => v.type.encode v.value := by
  induction vs generalizing out with
  | nil => simp [writeAll]
  | cons v vs ih =>
    have hrest := ih (fun w hw => h w (List.mem_cons_of_mem v hw)) (v.type.write v.value out)
    rw [v.type.written_write v.value (h v List.mem_cons_self)] at hrest
    rw [List.flatMap_cons, ← List.append_assoc, ← hrest]
    rfl

theorem readAll_reads (h : ∀ v ∈ vs, v.Short) :
    TryReads (readAll m (vs.map (·.type))) (vs.flatMap fun v => v.type.encode v.value)
      (vs.map StreamValue.cut) := by
  induction vs with
  | nil => exact TryReads.pure []
  | cons v vs ih =>
    have hrest := ih fun w hw => h w (List.mem_cons_of_mem v hw)
    have hhead := v.type.read_reads m v.value (h v List.mem_cons_self)
    exact hhead.bind (hrest.map (v.cut :: ·))

/-- Whatever the strings, what is read back is the values with their strings cut, to the last byte. -/
theorem reread_eq (h : ∀ v ∈ vs, v.Short) (f : StreamableFile) :
    reread m vs f = (some (vs.map StreamValue.cut),
      openAt (writeAll vs .opened).written (writeAll vs .opened).written.length) := by
  have hwritten : (writeAll vs .opened).written = vs.flatMap fun v => v.type.encode v.value :=
    written_writeAll h .opened
  have hall := readAll_reads (m := m) h (vs.flatMap fun v => v.type.encode v.value) 0
    (by rw [List.drop_zero])
  rw [Nat.zero_add] at hall
  rw [reread, hwritten, load_some]
  exact hall

/-- The sequences of values that are read back as they were written: those without a zero byte in a
string. -/
theorem roundTrips_iff (m : StringMemory) (vs : List StreamValue) (h : ∀ v ∈ vs, v.Short) :
    RoundTrips m vs ↔ ∀ v ∈ vs, v.NulFree := by
  have hread := reread_eq (m := m) h
  have hcut : vs.map StreamValue.cut = vs.map id ↔ ∀ v ∈ vs, v.cut = id v := List.map_inj_left
  rw [List.map_id] at hcut
  constructor
  · intro hround v hv
    have hvs := (hround (.new false)).1
    rw [hread] at hvs
    exact v.cut_eq_iff.mp (hcut.mp (Option.some.inj hvs) v hv)
  · intro hfree f
    -- There is nothing to cut.
    have hvs := hcut.mpr fun v hv => v.cut_eq_iff.mpr (hfree v hv)
    rw [hread, hvs]
    exact ⟨rfl, rfl, rfl⟩

end

/-- A string memory with the longest strings that a signed 64-bit length allows. -/
def zeroMemory : StringMemory := ⟨9223372036854775806, by norm_num, by norm_num, fun _ _ => 0⟩

/-- A vector of strings, one of them empty. -/
theorem roundTrips_strings : RoundTrips zeroMemory [⟨.vector .string, [[0x61, 0x62], []]⟩] :=
  (roundTrips_iff zeroMemory _ (by simp [StreamValue.Short, StreamType.Short])).mpr
    (by simp [StreamValue.NulFree, StreamType.NulFree])

/-- A string of a zero byte is read back empty. -/
theorem not_roundTrips : ¬ ∀ (m : StringMemory) (vs : List StreamValue), (∀ v ∈ vs, v.Short) →
    RoundTrips m vs := by
  intro h
  have hround := (h zeroMemory [⟨.string, [0]⟩] (by simp [StreamValue.Short, StreamType.Short])
    (.new false)).1
  rw [reread_eq (by simp [StreamValue.Short, StreamType.Short])] at hround
  cases hround

end RvnSyncPoint
