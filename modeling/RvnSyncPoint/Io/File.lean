import RvnSyncPoint.RuntimeError
import RvnSyncPoint.Io.Device

/-!
# `io_file`

The reader of io files (`include/io_file.h`, `src/io_file.cpp`), which `load` fills with the devices of
a file under their ids. A header followed by written devices is loaded as the map that sends each id to
the last device with it (`load_encoded`).
-/

namespace RvnSyncPoint

open LittleEndian StreamableFile

def IO_FILE_MAGIC : UInt64 := 0x69636e79734e5652

/-- An io file reader. -/
structure IoFile where
  file : StreamableFile
  devices : Std.TreeMap UInt64 Device

namespace IoFile

/-- The constructor, which leaves `opened_` with whatever value `opened` its memory holds. -/
def new (opened : Bool) : IoFile := ⟨.new opened, ∅⟩

/-- How `load` ends. -/
inductive LoadResult where
  | returned (b : Bool) (f : IoFile)
  | thrown (err : RuntimeError) (f : IoFile)
  /-- The length of a string is more than a string can have. -/
  | lengthError (f : IoFile)

/-- The loop of `load` on the devices, which does not look for the end of the file. -/
def loadDevices (m : StringMemory) : ℕ → IoFile → LoadResult
  | 0, f => .returned true f
  | size + 1, f =>
    match tryExtract (readDevice m) f.file with
    | (none, file) => .lengthError { f with file }
    -- A device with the id of an earlier one takes its place.
    | (some d, file) => loadDevices m size { file, devices := f.devices.insert d.id d }

/-- `load()` of a file with the given bytes, or of one that cannot be opened. -/
def load (m : StringMemory) (file : Option (List UInt8)) (f : IoFile) : LoadResult :=
  let f : IoFile := { file := f.file.load file, devices := ∅ }
  if f.file.eof || !f.file.opened then .returned false f
  else
    let (magic, file) := extract readUInt64 f.file
    let f := { f with file }
    if f.file.eof then .returned false { f with file := f.file.close }
    else if magic ≠ IO_FILE_MAGIC then
      .thrown (.magic IO_FILE_MAGIC.toNat magic.toNat) { f with file := f.file.close }
    else
      let (_version, file) := extract readUInt32 f.file
      let (size, file) := extract readUInt64 file
      let f := { f with file }
      if f.file.eof then .returned false { f with file := f.file.close }
      else loadDevices m size.toNat f

/-! ## The header -/

/-- The header of an io file: the magic number, the version and the number of devices. -/
def header (version : UInt32) (size : UInt64) : List UInt8 :=
  toBytes 8 IO_FILE_MAGIC.toNat ++ toBytes 4 version.toNat ++ toBytes 8 size.toNat

theorem length_header (version : UInt32) (size : UInt64) : (header version size).length = 20 := by
  simp [header]

/-- A file that `load` accepts: it has a header, with the right magic number. -/
def Accepted (c : List UInt8) : Prop := 20 ≤ c.length ∧ UInt64.ofNat (leAt c 0 8) = IO_FILE_MAGIC

/-- The number of devices that the header announces. -/
def announced (c : List UInt8) : ℕ := leAt c 12 8

/-- Of a file that is accepted, as many devices are extracted as it announces, whatever was loaded
before. -/
theorem load_accepted (m : StringMemory) {c : List UInt8} (h : Accepted c) (f : IoFile) :
    f.load m (some c) = loadDevices m (announced c) ⟨openAt c 20, ∅⟩ := by
  obtain ⟨hle, hmagic⟩ := h
  have hread := readUInt64_openAt (c := c) (o := 0) (by omega)
  rw [hmagic] at hread
  have hversion := readUInt32_openAt (c := c) (o := 8) (by omega)
  have hsize := readUInt64_openAt (c := c) (o := 12) hle
  have hannounced : (UInt64.ofNat (leAt c 12 8)).toNat = announced c :=
    UInt64.toNat_ofNat_of_lt' (leAt_lt c 12 8)
  unfold load
  simp only [load_some, hread, hversion, hsize, hannounced, openAt_eof, openAt_opened, Bool.not_true,
    Bool.or_self, Bool.false_eq_true, if_false, ne_eq, not_true_eq_false, Nat.zero_add]

/-- Of any other file `load` does not return true. -/
theorem load_refused (m : StringMemory) {c : List UInt8} (h : ¬ Accepted c) (f g : IoFile) :
    f.load m (some c) ≠ .returned true g := by
  have hafter : After c 20 (extract readUInt64 (extract readUInt32
      (extract readUInt64 (openAt c 0)).2).2).2 :=
    readUInt64_asks _ _ _ (readUInt32_asks _ _ _ (readUInt64_asks c 0 _ (.inl ⟨rfl, Nat.zero_le _⟩)))
  unfold load
  simp only [load_some, openAt_eof, openAt_opened, Bool.not_true, Bool.or_self, Bool.false_eq_true,
    if_false]
  rcases hafter with ⟨-, hle⟩ | ⟨⟨e, heof⟩, -⟩
  · -- The header is whole, so its magic is wrong.
    have hread := readUInt64_openAt (c := c) (o := 0) (by omega)
    have hmagic : UInt64.ofNat (leAt c 0 8) ≠ IO_FILE_MAGIC := fun heq => h ⟨hle, heq⟩
    simp [hread, hmagic]
  · -- The header is cut, in the magic number or after it.
    by_cases hend : (extract readUInt64 (openAt c 0)).2.eof = true
    · simp [hend]
    · by_cases hmagic : (extract readUInt64 (openAt c 0)).1 = IO_FILE_MAGIC
      · simp [hend, hmagic, heof]
      · simp [hend, hmagic]

/-- A file that begins with a header is accepted. -/
theorem accepted_header (version : UInt32) (size : UInt64) (bs : List UInt8) :
    Accepted (header version size ++ bs) := by
  constructor
  · rw [List.length_append, length_header]
    omega
  · rw [header, List.append_assoc, List.append_assoc, leAt_toBytes_append _ IO_FILE_MAGIC.toNat_lt]
    exact UInt64.ofNat_toNat

theorem announced_header (version : UInt32) (size : UInt64) (bs : List UInt8) :
    announced (header version size ++ bs) = size.toNat := by
  rw [announced, header, List.append_assoc, List.append_assoc,
    leAt_toBytes_append_of_le _ (by omega), leAt_toBytes_append_of_le _ (by omega)]
  exact leAt_toBytes_append _ size.toNat_lt

/-! ## Written devices -/

/-- The map of the elements of a list under their keys holds the last element of each key. -/
theorem getElem?_foldl_insert {α κ : Type} [Ord κ] [DecidableEq κ] [Std.TransOrd κ]
    [Std.LawfulEqOrd κ] (key : α → κ) (m : Std.TreeMap κ α) (l : List α) (k : κ) :
    (l.foldl (fun m a => m.insert (key a) a) m)[k]? =
      ((l.filter fun a => key a = k).getLast?).or m[k]? := by
  induction l using List.reverseRecOn with
  | nil => rfl
  | append_singleton l a ih =>
    rw [List.foldl_append, List.foldl_cons, List.foldl_nil, Std.TreeMap.getElem?_insert, ih,
      List.filter_append]
    by_cases hk : key a = k
    · simp [hk]
    · simp [hk]

variable {m : StringMemory} {c : List UInt8} {o : ℕ}

/-- Devices that come next are extracted one by one. -/
theorem loadDevices_encoded {ds : List Device} (hds : ∀ d ∈ ds, d.Short ∧ d.NulFree)
    (hc : ds.flatMap Device.encode <+: c.drop o) (devices : Std.TreeMap UInt64 Device) :
    ∃ o', loadDevices m ds.length ⟨openAt c o, devices⟩ =
      .returned true ⟨openAt c o', ds.foldl (fun m d => m.insert d.id d) devices⟩ := by
  induction ds generalizing o devices with
  | nil => exact ⟨o, rfl⟩
  | cons d ds ih =>
    obtain ⟨⟨hshort, hfree⟩, hrest⟩ := List.forall_mem_cons.mp hds
    rw [List.flatMap_cons] at hc
    have hread : tryExtract (readDevice m) (openAt c o) = (some d, openAt c (o + d.encode.length)) :=
      readDevice_reads m hshort hfree c o ((List.prefix_append _ _).trans hc)
    rw [List.length_cons, loadDevices, hread]
    exact ih hrest (prefix_drop hc) _

/-- A header followed by written devices, and by anything else, is loaded as the map that sends each id
to the last device with it, whatever was loaded before. -/
theorem load_encoded (m : StringMemory) (f : IoFile) (version : UInt32) (ds : List Device)
    (hcount : ds.length < 2 ^ 64) (hds : ∀ d ∈ ds, d.Short ∧ d.NulFree) (rest : List UInt8) :
    ∃ g, f.load m (some (header version (.ofNat ds.length) ++ (ds.flatMap Device.encode ++ rest))) =
      .returned true g ∧ ∀ id, g.devices[id]? = (ds.filter fun d => d.id = id).getLast? := by
  have hsize : (UInt64.ofNat ds.length).toNat = ds.length := UInt64.toNat_ofNat_of_lt' hcount
  have hdrop : ds.flatMap Device.encode <+:
      (header version (.ofNat ds.length) ++ (ds.flatMap Device.encode ++ rest)).drop 20 := by
    rw [← length_header version (.ofNat ds.length), List.drop_left]
    exact List.prefix_append _ _
  obtain ⟨o', hload⟩ := loadDevices_encoded (m := m) hds hdrop ∅
  rw [load_accepted m (accepted_header version _ _), announced_header, hsize, hload]
  refine ⟨_, rfl, fun id => ?_⟩
  rw [getElem?_foldl_insert, Std.TreeMap.getElem?_emptyc, Option.or_none]

/-- Two devices with the same id, with a range of ports and with one of memory. -/
def sameId : List Device :=
  [⟨[0x61], [], 7, [⟨[0x62], 0x60, 5, 0⟩], []⟩,
    ⟨[], [0x63], 7, [], [⟨[], 0xfee00000, 0x1000, 1⟩]⟩]

theorem load_sameId :
    ∃ g, (new false).load zeroMemory
        (some (header 1 (.ofNat sameId.length) ++ (sameId.flatMap Device.encode ++ [0xff]))) =
      .returned true g ∧ ∀ id, g.devices[id]? = (sameId.filter fun d => d.id = id).getLast? :=
  load_encoded zeroMemory (new false) 1 sameId (by decide)
    (by simp [sameId, Device.Short, Device.NulFree, Device.value, PortRange.value, MemoryRange.value,
      StreamType.Short, StreamType.NulFree]) [0xff]

end IoFile

end RvnSyncPoint
