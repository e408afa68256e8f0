import RvnSyncPoint.Extraction

/-!
# Hardware accesses

`hardware_access` (`include/hardware_access.h`) with its extraction, and the insertions that
`reorder_hardware` writes it with. The two mirror each other: what is written is read back
(`readHardwareAccess_encode`). Of an access that the end of the file cuts, the bytes that are there
are read, and the end is met (`After.readHardwareAccess`).
-/

namespace RvnSyncPoint

open LittleEndian StreamableFile

/-- `hardware_access`: an access of the hardware to the main memory. -/
structure HardwareAccess where
  tsc : UInt64
  physical_address : UInt64
  type : UInt64
  device_id : UInt64
  device_instance : UInt32
  data : List UInt8
deriving DecidableEq

/-- `valid()`. -/
def HardwareAccess.valid (a : HardwareAccess) : Bool := a.tsc != 0

/-- `file >> access`. -/
def readHardwareAccess : StateM StreamableFile HardwareAccess := do
  let tsc ← readUInt64
  let physical_address ← readUInt64
  let type ← readUInt64
  let device_id ← readUInt64
  let device_instance ← readUInt32
  let data ← readVector readUInt8
  return { tsc, physical_address, type, device_id, device_instance, data }

/-- The insertions of an access. -/
def StreamableOutfile.writeHardwareAccess (access : HardwareAccess) (out : StreamableOutfile) :
    StreamableOutfile :=
  out |>.writeUInt64 access.tsc |>.writeUInt64 access.physical_address |>.writeUInt64 access.type
    |>.writeUInt64 access.device_id |>.writeUInt32 access.device_instance
    |>.writeVector writeUInt8 access.data

namespace HardwareAccess

/-- The bytes of the fields of fixed width. -/
def fields (a : HardwareAccess) : List UInt8 :=
  toBytes 8 a.tsc.toNat ++ (toBytes 8 a.physical_address.toNat ++ (toBytes 8 a.type.toNat ++
    (toBytes 8 a.device_id.toNat ++ (toBytes 4 a.device_instance.toNat ++
      toBytes 8 (UInt64.ofNat a.data.length).toNat))))

/-- The bytes of an access. -/
def encode (a : HardwareAccess) : List UInt8 := a.fields ++ a.data

@[simp]
theorem length_fields (a : HardwareAccess) : a.fields.length = 44 := by
  simp [fields]

theorem length_encode (a : HardwareAccess) : a.encode.length = 44 + a.data.length := by
  rw [encode, List.length_append, length_fields]

/-- The data is that of a `std::vector`, whose size is a 64-bit number. -/
def Sized (a : HardwareAccess) : Prop := a.data.length < 2 ^ 64

/-- An access as it is recorded: it is valid, and its data is that of a `std::vector`. -/
def Recorded (a : HardwareAccess) : Prop := a.valid = true ∧ a.Sized

instance (a : HardwareAccess) : Decidable a.Sized := inferInstanceAs (Decidable (_ < _))

instance (a : HardwareAccess) : Decidable a.Recorded := inferInstanceAs (Decidable (_ ∧ _))

end HardwareAccess

/-- What the insertions of an access write. -/
@[simp]
theorem StreamableOutfile.written_writeHardwareAccess (a : HardwareAccess)
    (out : StreamableOutfile) :
    (out.writeHardwareAccess a).written = out.written ++ a.encode := by
  simp [writeHardwareAccess, HardwareAccess.encode, HardwareAccess.fields]

namespace StreamableFile

/-! ## The extraction of an access -/

/-- The extractions of the fields of fixed width, the size of the data among them. -/
def readFields : StateM StreamableFile ((List UInt8 → HardwareAccess) × UInt64) := do
  let tsc ← readUInt64
  let physical_address ← readUInt64
  let type ← readUInt64
  let device_id ← readUInt64
  let device_instance ← readUInt32
  let size ← readUInt64
  return (fun data => { tsc, physical_address, type, device_id, device_instance, data }, size)

/-- An access is its fields of fixed width, then its data. -/
theorem readHardwareAccess_eq :
    readHardwareAccess = (do
      let (access, size) ← readFields
      let data ← readElements readUInt8 size.toNat
      return access data) := rfl

theorem readFields_reads (a : HardwareAccess) :
    Reads readFields a.fields (fun data => { a with data }, UInt64.ofNat a.data.length) := by
  have hfields : a.fields = toBytes 8 a.tsc.toNat ++ (toBytes 8 a.physical_address.toNat ++
      (toBytes 8 a.type.toNat ++ (toBytes 8 a.device_id.toNat ++
        (toBytes 4 a.device_instance.toNat ++
          (toBytes 8 (UInt64.ofNat a.data.length).toNat ++ []))))) := by
    rw [List.append_nil]
    rfl
  rw [hfields]
  refine (readUInt64_reads a.tsc).bind ?_
  refine (readUInt64_reads a.physical_address).bind ?_
  refine (readUInt64_reads a.type).bind ?_
  refine (readUInt64_reads a.device_id).bind ?_
  refine (readUInt32_reads a.device_instance).bind ?_
  exact (readUInt64_reads (UInt64.ofNat a.data.length)).bind (Reads.pure _)

theorem readFields_asks : Asks readFields 44 :=
  readUInt64_asks.bind fun _ => readUInt64_asks.bind fun _ => readUInt64_asks.bind fun _ =>
    readUInt64_asks.bind fun _ => readUInt32_asks.bind fun _ => readUInt64_asks.bind fun _ =>
      Asks.pure _

/-- What was written of an access is read back. -/
theorem readHardwareAccess_reads (a : HardwareAccess) (h : a.Sized) :
    Reads readHardwareAccess a.encode a := by
  rw [readHardwareAccess_eq, HardwareAccess.encode]
  refine (readFields_reads a).bind ?_
  have hsize : (UInt64.ofNat a.data.length).toNat = a.data.length := UInt64.toNat_ofNat_of_lt' h
  have hdata : Reads (do let data ← readElements readUInt8 a.data.length
                         return { a with data }) (a.data ++ []) a :=
    (readElements_reads a.data).bind (Reads.pure a)
  rw [List.append_nil] at hdata
  show Reads (do let data ← readElements readUInt8 (UInt64.ofNat a.data.length).toNat
                 return { a with data }) a.data a
  rw [hsize]
  exact hdata

/-- An access is read with a size that fits. -/
theorem readHardwareAccess_sized (f : StreamableFile) : (extract readHardwareAccess f).1.Sized := by
  obtain ⟨g, hg⟩ : ∃ g, (extract readHardwareAccess f).1.data =
      (extract (readElements readUInt8 (extract readFields f).1.2.toNat) g).1 := ⟨_, rfl⟩
  rw [HardwareAccess.Sized, hg]
  exact (readElements_length_le _ g).trans_lt (extract readFields f).1.2.toNat_lt

/-- The timestamp is the first field, with zeros for what the end of the file cuts of it. -/
theorem readHardwareAccess_tsc (c : List UInt8) (o : ℕ) :
    (extract readHardwareAccess (openAt c o)).1.tsc = .ofNat (leAt c o 8) :=
  readUInt64_value c o

/-- Reading an access asks for the fields of fixed width, and for data. -/
theorem readHardwareAccess_after {c : List UInt8} {o : ℕ} {f : StreamableFile} (h : After c o f) :
    ∃ size, After c (o + 44 + size) (extract readHardwareAccess f).2 := by
  have hfields := readFields_asks c o f h
  refine ⟨(extract readFields f).1.2.toNat, ?_⟩
  rw [readHardwareAccess_eq, extract_bind]
  exact Asks.bind (readElements_asks _) (fun data => Asks.pure _) c (o + 44) _ hfields

/-- Where reads give zeros, so do the fields of an access. -/
theorem readHardwareAccess_silent {f : StreamableFile} (h : Silent f) :
    extract readHardwareAccess f = (⟨0, 0, 0, 0, 0, []⟩, f) := by
  simp only [readHardwareAccess, extract_bind, readUInt64_silent h, readUInt32_silent h,
    readVector_silent h, extract_pure]

/-- Reading an access past the end of the file meets the end. -/
theorem readHardwareAccess_past {c : List UInt8} {o : ℕ} (h : c.length ≤ o) :
    (extract readHardwareAccess (openAt c o)).2 = endAt c o := by
  have hend : Silent (endAt c o) := .of_eof rfl
  simp only [readHardwareAccess, extract_bind, readUInt64_end h, readUInt64_silent hend,
    readUInt32_silent hend, readVector_silent hend, extract_pure]

/-- Reading what is left of an access that the end of the file cuts meets the end. -/
theorem readHardwareAccess_cut {c t : List UInt8} {o : ℕ} {a : HardwareAccess} (ha : a.Sized)
    (hc : c.drop o = t) (ho : o ≤ c.length) (ht : t <+: a.encode) (hne : t ≠ a.encode) :
    (extract readHardwareAccess (openAt c o)).2.eof = true := by
  have hlt : t.length < a.encode.length := by
    refine lt_of_le_of_ne ht.length_le fun heq => hne (ht.eq_of_length heq)
  rw [HardwareAccess.length_encode] at hlt
  have hlen : c.length = o + t.length := by
    rw [← hc, List.length_drop]
    omega
  -- The cut is in the 44 bytes of the fields, or in the data after them.
  have hstart : After c o (openAt c o) := .inl ⟨rfl, ho⟩
  have hfields := readFields_asks c o _ hstart
  rw [readHardwareAccess_eq, extract_bind]
  rcases Nat.lt_or_ge t.length 44 with hshort | hlong
  · -- The fields of fixed width are cut, and the data is read at the end of the file.
    refine (Asks.bind (readElements_asks _) (fun data => Asks.pure _) c (o + 44) _ hfields).eof ?_
    omega
  · -- The data is cut, and the size says that there is more.
    have hprefix : a.fields <+: c.drop o := by
      rw [hc]
      exact List.prefix_of_prefix_length_le (List.prefix_append _ _) ht (by simpa using hlong)
    have hsize : (UInt64.ofNat a.data.length).toNat = a.data.length := UInt64.toNat_ofNat_of_lt' ha
    rw [readFields_reads a c o hprefix] at hfields ⊢
    refine (Asks.bind (readElements_asks _) (fun data => Asks.pure _) c (o + 44) _ hfields).eof ?_
    omega

/-- Reading an access leaves less to read, unless the end of the file was met before. -/
theorem readHardwareAccess_progress (c : List UInt8) (f : StreamableFile) (h : Healthy c f) :
    Healthy c (extract readHardwareAccess f).2 ∧
      (remaining (extract readHardwareAccess f).2 < remaining f ∨ f.eof = true) := by
  obtain ⟨htsc, hprogress⟩ := readRaw_advances 8 (by omega) c f h
  have hrest : Advances (do
      let physical_address ← readUInt64
      let type ← readUInt64
      let device_id ← readUInt64
      let device_instance ← readUInt32
      let data ← readVector readUInt8
      return ({ tsc := 0, physical_address, type, device_id, device_instance, data } :
        HardwareAccess)) :=
    readUInt64_advances.bind fun _ => readUInt64_advances.bind fun _ =>
      readUInt64_advances.bind fun _ => readUInt32_advances.bind fun _ =>
        (readVector_advances readUInt8_advances).bind fun _ => .pure _
  obtain ⟨hhealthy, hle⟩ := hrest c (extract (readRaw 8) f).2 htsc
  refine ⟨hhealthy, ?_⟩
  rcases hprogress with hlt | ⟨heof, -⟩
  · exact .inl (hle.trans_lt hlt)
  · exact .inr heof

end StreamableFile

end RvnSyncPoint
