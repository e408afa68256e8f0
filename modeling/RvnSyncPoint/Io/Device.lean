import RvnSyncPoint.Streamable

/-!
# `device`

The devices of an io file, with the ranges of ports and of memory that they use (`include/device.h`).
The extraction of each of the three structures is that of its fields one after the other, so it is the
extraction of a streamed value (`readDevice_eq`), and a device is read back from its bytes
(`readDevice_reads`).
-/

namespace RvnSyncPoint

open LittleEndian StreamableFile

/-- A range of ports. -/
structure PortRange where
  description : List UInt8
  port : UInt16
  length : UInt16
  «instance» : UInt32
deriving DecidableEq

/-- A range of physical memory. -/
structure MemoryRange where
  description : List UInt8
  physical_address : UInt64
  length : UInt64
  «instance» : UInt32
deriving DecidableEq

/-- A device. -/
structure Device where
  name : List UInt8
  description : List UInt8
  id : UInt64
  port_ranges : List PortRange
  memory_ranges : List MemoryRange
deriving DecidableEq

/-- `operator>>` for ranges of ports. -/
def readPortRange (m : StringMemory) : Extractor PortRange := do
  return {
    description := ← readString m, port := ← readUInt16, length := ← readUInt16,
    «instance» := ← readUInt32 }

/-- `operator>>` for ranges of memory. -/
def readMemoryRange (m : StringMemory) : Extractor MemoryRange := do
  return {
    description := ← readString m, physical_address := ← readUInt64, length := ← readUInt64,
    «instance» := ← readUInt32 }

/-- `operator>>` for devices. -/
def readDevice (m : StringMemory) : Extractor Device := do
  return {
    name := ← readString m, description := ← readString m, id := ← readUInt64,
    port_ranges := ← readVectorT (readPortRange m),
    memory_ranges := ← readVectorT (readMemoryRange m) }

/-! ## As streamed values -/

namespace PortRange

/-- The types of the fields. -/
abbrev type : StreamType := .pair .string (.pair .uint16 (.pair .uint16 .uint32))

/-- The fields. -/
def value (r : PortRange) : type.Value := (r.description, r.port, r.length, r.«instance»)

/-- The range with the given fields. -/
def ofValue : type.Value → PortRange
  | (description, port, length, «instance») => { description, port, length, «instance» }

end PortRange

namespace MemoryRange

/-- The types of the fields. -/
abbrev type : StreamType := .pair .string (.pair .uint64 (.pair .uint64 .uint32))

/-- The fields. -/
def value (r : MemoryRange) : type.Value := (r.description, r.physical_address, r.length, r.«instance»)

/-- The range with the given fields. -/
def ofValue : type.Value → MemoryRange
  | (description, physical_address, length, «instance») =>
    { description, physical_address, length, «instance» }

end MemoryRange

namespace Device

/-- The types of the fields. -/
abbrev type : StreamType :=
  .pair .string (.pair .string (.pair .uint64 (.pair (.vector PortRange.type)
    (.vector MemoryRange.type))))

/-- The fields. -/
def value (d : Device) : type.Value :=
  (d.name, d.description, d.id, d.port_ranges.map PortRange.value,
    d.memory_ranges.map MemoryRange.value)

/-- The device with the given fields. -/
def ofValue : type.Value → Device
  | (name, description, id, port_ranges, memory_ranges) =>
    { name, description, id, port_ranges := port_ranges.map PortRange.ofValue,
      memory_ranges := memory_ranges.map MemoryRange.ofValue }

theorem ofValue_value (d : Device) : ofValue d.value = d := by
  have hports : (d.port_ranges.map PortRange.value).map PortRange.ofValue = d.port_ranges := by
    rw [List.map_map]
    exact List.map_id _
  have hmemory : (d.memory_ranges.map MemoryRange.value).map MemoryRange.ofValue =
      d.memory_ranges := by
    rw [List.map_map]
    exact List.map_id _
  simp only [ofValue, value, hports, hmemory]

theorem value_ofValue (v : type.Value) : (ofValue v).value = v := by
  obtain ⟨name, description, id, port_ranges, memory_ranges⟩ := v
  have hports : (List.map PortRange.ofValue port_ranges).map PortRange.value = port_ranges := by
    rw [List.map_map]
    exact List.map_id _
  have hmemory : (List.map MemoryRange.ofValue memory_ranges).map MemoryRange.value =
      memory_ranges := by
    rw [List.map_map]
    exact List.map_id _
  simp only [ofValue, value, hports, hmemory]

/-- The bytes of a device, as its fields are written one after the other. -/
def encode (d : Device) : List UInt8 := type.encode d.value

/-- The names and descriptions have no zero byte. -/
def NulFree (d : Device) : Prop := type.NulFree d.value

/-- The lengths of the names and descriptions are 32-bit numbers, and the sizes of the vectors 64-bit
ones. -/
def Short (d : Device) : Prop := type.Short d.value

end Device

theorem readPortRange_eq (m : StringMemory) :
    readPortRange m = PortRange.ofValue <$> PortRange.type.read m := by
  simp only [readPortRange, StreamType.read, map_bind, map_pure, bind_assoc, pure_bind]
  rfl

theorem readMemoryRange_eq (m : StringMemory) :
    readMemoryRange m = MemoryRange.ofValue <$> MemoryRange.type.read m := by
  simp only [readMemoryRange, StreamType.read, map_bind, map_pure, bind_assoc, pure_bind]
  rfl

/-- The extraction of a device is that of its fields. -/
theorem readDevice_eq (m : StringMemory) : readDevice m = Device.ofValue <$> Device.type.read m := by
  have hports : readVectorT (readPortRange m) =
      List.map PortRange.ofValue <$> readVectorT (PortRange.type.read m) := by
    rw [readPortRange_eq]
    exact readVectorT_map _ _
  have hmemory : readVectorT (readMemoryRange m) =
      List.map MemoryRange.ofValue <$> readVectorT (MemoryRange.type.read m) := by
    rw [readMemoryRange_eq]
    exact readVectorT_map _ _
  simp only [readDevice, hports, hmemory, map_eq_pure_bind, StreamType.read, bind_assoc, pure_bind]
  rfl

/-- A device without a zero byte in its names and descriptions is read back as it was written. -/
theorem readDevice_reads (m : StringMemory) {d : Device} (h : d.Short) (hfree : d.NulFree) :
    TryReads (readDevice m) d.encode d := by
  have hread := (Device.type.read_reads m d.value h).map Device.ofValue
  rw [(Device.type.cut_eq_iff d.value).mpr hfree, d.ofValue_value] at hread
  rw [readDevice_eq, map_eq_pure_bind]
  exact hread

end RvnSyncPoint
