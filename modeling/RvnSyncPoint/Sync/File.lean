import RvnSyncPoint.Loop
import RvnSyncPoint.Sync.Event

/-!
# `sync_file`

The reader of sync files (`include/sync_file.h`, `src/sync_file.cpp`). A method is a function from
the state it finds to the one it leaves; `none` says that it does not end. The 64-bit counters are
natural numbers, reduced modulo `2^64` where the source's arithmetic can wrap.
-/

namespace RvnSyncPoint

open LittleEndian Loop StreamableFile

def HEADER_SIZE : ℕ := 1024
def SYNC_POINT_MAGIC : UInt64 := 0x70636e79734e5652
def SYNC_POINT_DATA_MAGIC : UInt64 := 0x64636e79734e5652
def SYNC_POINT_FILE_VERSION : UInt32 := 3

/-- `type_flags::irq_mask`. -/
def irq_mask : UInt16 := 0xff

/-- `type_flags::is_irq`. -/
def is_irq : UInt16 := 0x100

/-- `n - 1` in 64-bit arithmetic. -/
def pred64 (n : ℕ) : ℕ := (n + (2 ^ 64 - 1)) % 2 ^ 64

/-- A sync file reader. -/
structure SyncFile where
  file : StreamableFile
  data_file : StreamableFile
  current : SyncPoint := {}
  current_event : SyncEvent := {}
  /-- Position inside the file, in frames. -/
  position : ℕ := 0
  last_valid_position : ℕ := 0
  /-- Number of bytes per record. -/
  record_size : UInt32
  version : UInt32
  sync_point_count : ℕ := 0
  /-- What the fields `interrupt_vector` and `type` of the successive temporary `sync_point_v2`s hold
  before anything is stored in them. -/
  stack : ℕ → UInt8 × SyncPointType

/-- The memory that the constructor of `sync_file` leaves uninitialised. -/
structure Uninitialised where
  opened : Bool
  data_opened : Bool
  record_size : UInt32
  version : UInt32
  stack : ℕ → UInt8 × SyncPointType

/-! ## Records -/

/-- The fields of a version-3 record, in the order of the file. -/
structure SyncRecord where
  tsc : UInt64
  type : UInt16
  cs : UInt16
  rax : UInt64
  rbx : UInt64
  rcx : UInt64
  rdx : UInt64
  rsi : UInt64
  rdi : UInt64
  rbp : UInt64
  rsp : UInt64
  r8 : UInt64
  r9 : UInt64
  r10 : UInt64
  r11 : UInt64
  r12 : UInt64
  r13 : UInt64
  r14 : UInt64
  r15 : UInt64
  rip : UInt64
  rflags : UInt64
  cr0 : UInt64
  cr2 : UInt64
  cr3 : UInt64
  cr4 : UInt64
  data_offset : UInt32
  fpu_sw : UInt16
  fpu_cw : UInt16
  fpu_tags : UInt8
  fault_error_code : UInt32
deriving DecidableEq

/-- The extractions of `next()` from a version-3 file, which read 201 bytes. -/
def readRecordV3 : StateM StreamableFile SyncRecord := do
  return {
    tsc := ← readUInt64, type := ← readUInt16, cs := ← readUInt16,
    rax := ← readUInt64, rbx := ← readUInt64, rcx := ← readUInt64, rdx := ← readUInt64,
    rsi := ← readUInt64, rdi := ← readUInt64,
    rbp := ← readUInt64, rsp := ← readUInt64,
    r8 := ← readUInt64, r9 := ← readUInt64, r10 := ← readUInt64, r11 := ← readUInt64,
    r12 := ← readUInt64, r13 := ← readUInt64, r14 := ← readUInt64, r15 := ← readUInt64,
    rip := ← readUInt64, rflags := ← readUInt64,
    cr0 := ← readUInt64, cr2 := ← readUInt64, cr3 := ← readUInt64, cr4 := ← readUInt64,
    data_offset := ← readUInt32, fpu_sw := ← readUInt16, fpu_cw := ← readUInt16,
    fpu_tags := ← readUInt8,
    fault_error_code := ← readUInt32 }

/-- The extractions of `next()` from a file of a version below 3, into a temporary point whose
interrupt vector and type are not read: the point, the type word and the data offset. -/
def readRecordV2 (uninitialised : UInt8 × SyncPointType) :
    StateM StreamableFile (SyncPointV2 × UInt16 × UInt32) := do
  let tsc ← readUInt64
  let type ← readUInt16
  let cs ← readUInt16
  let eax ← readUInt32
  let ebx ← readUInt32
  let ecx ← readUInt32
  let edx ← readUInt32
  let esi ← readUInt32
  let edi ← readUInt32
  let ebp ← readUInt32
  let esp ← readUInt32
  let eip ← readUInt32
  let eflags ← readUInt32
  let cr0 ← readUInt32
  let cr2 ← readUInt32
  let cr3 ← readUInt32
  let cr4 ← readUInt32
  let data_offset ← readUInt32
  let fpu_sw ← readUInt16
  let fpu_cw ← readUInt16
  let fpu_tags ← readUInt8
  let fault_error_code ← readUInt16
  let _padding ← readUInt8
  return ({ eax, ebx, ecx, edx, esi, edi, ebp, esp, eip, eflags, tsc, cr0, cr2, cr3, cr4, fpu_sw,
            fpu_cw, fpu_tags, cs, interrupt_vector := uninitialised.1, fault_error_code,
            type := uninitialised.2 }, type, data_offset)

/-- Reads `n` bytes of padding, one at a time. -/
def skipPadding : ℕ → StateM StreamableFile Unit
  | 0 => return
  | n + 1 => do
    let _padding ← readUInt8
    skipPadding n

/-- The fields of a version-3 record that are extracted straight into the current point. -/
def SyncRecord.extract (r : SyncRecord) (p : SyncPoint) : SyncPoint :=
  { p with
    tsc := r.tsc, cs := r.cs, rax := r.rax, rbx := r.rbx, rcx := r.rcx, rdx := r.rdx, rsi := r.rsi,
    rdi := r.rdi, rbp := r.rbp, rsp := r.rsp, r8 := r.r8, r9 := r.r9, r10 := r.r10, r11 := r.r11,
    r12 := r.r12, r13 := r.r13, r14 := r.r14, r15 := r.r15, rip := r.rip, rflags := r.rflags,
    cr0 := r.cr0, cr2 := r.cr2, cr3 := r.cr3, cr4 := r.cr4, fpu_sw := r.fpu_sw, fpu_cw := r.fpu_cw,
    fpu_tags := r.fpu_tags, fault_error_code := r.fault_error_code }

/-- Does the type word have the interrupt flag? -/
def isIrq (type : UInt16) : Bool := (type &&& is_irq) != 0

/-- The low byte of the type word: the interrupt's vector, or the type of any other point. -/
def irqByte (type : UInt16) : UInt8 := (type &&& irq_mask).toUInt8

/-- Stores the type word in a point. Only an interrupt's word has the vector; any other one leaves the
point's vector as it is. -/
def SyncPoint.storeType (type : UInt16) (p : SyncPoint) : SyncPoint :=
  if isIrq type then { p with type := .INTERRUPT, interrupt_vector := irqByte type }
  else { p with type := ⟨irqByte type⟩ }

/-- One pass of the data loop of `next()`. -/
def readBlock : List SyncPointData × StreamableFile →
    Option (List SyncPointData × StreamableFile ⊕ List SyncPointData × StreamableFile)
  | (blocks, data_file) =>
    let (type, data_file) := extract readUInt32 data_file
    if type = dataEnd then some (.inr (blocks, data_file))
    else
      let (offset, data_file) := extract readUInt64 data_file
      let (data, data_file) := extract (readVector readUInt8) data_file
      some (.inl (blocks ++ [{ type, offset, data }], data_file))

/-- The blocks of data that a record's data offset points to. -/
def readData (data_offset : UInt32) (data_file : StreamableFile) :
    Option (List SyncPointData × StreamableFile) :=
  -- `eof()` is looked at before the seek that would clear it.
  if data_offset != 0 && !data_file.eof then
    loop readBlock ([], data_file.seek data_offset.toNat)
  else some ([], data_file)

namespace SyncFile

/-- The constructor. -/
def new (u : Uninitialised) : SyncFile :=
  { file := .new u.opened, data_file := .new u.data_opened, record_size := u.record_size,
    version := u.version, stack := u.stack }

/-- `eof()`. -/
def eof (f : SyncFile) : Bool := f.file.eof

/-- `is_valid()`. -/
def isValid (f : SyncFile) : Bool := f.file.opened

/-! ## Points -/

/-- Extracts a record into the current point: the type word and the data offset. -/
def readPoint (f : SyncFile) : (UInt16 × UInt32) × SyncFile :=
  if f.version < 3 then
    let ((old_sp, type, data_offset), file) := extract (readRecordV2 (f.stack 0)) f.file
    ((type, data_offset),
      { f with file, current := .ofV2 old_sp, stack := fun i => f.stack (i + 1) })
  else
    let (r, file) := extract readRecordV3 f.file
    -- The difference is unsigned: below 201 bytes it wraps around, and the padding is very long.
    let (_, file) := extract (skipPadding (f.record_size - 201).toNat) file
    ((r.type, r.data_offset), { f with file, current := r.extract f.current })

/-- One pass of the read loop of `next()`. -/
def readPass (f : SyncFile) : Option SyncFile := do
  let ((type, data_offset), f) := f.readPoint
  let (data, data_file) ← readData data_offset f.data_file
  let f := { f with current := { f.current.storeType type with data }, data_file }
  -- A record that the file ends in is not counted, but its fields stay in the current point.
  return if f.eof then f else { f with position := (f.position + 1) % 2 ^ 64 }

/-- The read loop of `next()`, which skips points identical to `prev`. -/
def skipIdentical (prev : SyncPoint) : SyncFile → Option SyncFile :=
  loop fun f => do
    let f ← f.readPass
    return if prev.operatorEq f.current && !f.eof then .inl f else .inr f

/-- Forgets the current event if there is one. -/
def dropEvent (f : SyncFile) : SyncFile :=
  if f.current_event.is_valid then { f with current_event := {} } else f

/-- `next()`. The point that it returns is the current one of the state that it leaves. -/
def next (f : SyncFile) : Option SyncFile :=
  if f.eof then some f else (skipIdentical f.current f).map dropEvent

/-- The private `seek()`. -/
def seek (position : ℕ) (f : SyncFile) : Option SyncFile :=
  if f.record_size = 0 then some { f with position := 0 }
  else if position = 0 then
    some { f with last_valid_position := 0, current := {}, file := f.file.seek HEADER_SIZE,
                  position := 0 }
  else do
    -- `next()` counts the record that it reads, so the position is one less before it.
    let f := { f with position := position - 1 }
    let offset := (HEADER_SIZE + f.record_size.toNat * f.position) % 2 ^ 64
    let f ← next { f with file := f.file.seek offset, current := {} }
    return { f with last_valid_position := if f.position = 0 then 0 else f.position - 1 }

/-- `seek_from_end()`. -/
def seekFromEnd (position : ℕ) (f : SyncFile) : SyncFile :=
  if f.record_size = 0 then { f with position := 0 }
  else
    let offset := (f.record_size.toNat * ((position + 1) % 2 ^ 64)) % 2 ^ 64
    let file := f.file.seekFromEnd (toInt64 offset)
    -- No record is read, and `pos()` is `-1` when the seek has failed.
    { f with
      current := {}, file
      position := ((file.pos + (2 ^ 64 - HEADER_SIZE)) % 2 ^ 64) / f.record_size.toNat
      last_valid_position := position }

/-- `validate()`, which does not use its argument. -/
def validate (f : SyncFile) : SyncFile :=
  if f.last_valid_position ≠ f.position then { f with last_valid_position := f.position } else f

end SyncFile

/-! ## Events -/

/-- `fetch_new_event` returns early, at the end of the file. -/
def SyncEvent.last (e : SyncEvent) : SyncEvent := { e with is_last_event := true, is_valid := true }

/-- The start of an event whose VMExit is missing, at the first record. -/
def SyncEvent.startUnknown (position : ℕ) : SyncEvent :=
  { position, is_first_event_context_unknown := true, start_reason := .VMX_EXIT_XCPT_OR_NMI,
    is_instruction_emulation := true }

/-- The start of an event at its VMExit. -/
def SyncEvent.start (position : ℕ) (vmexit : SyncPoint) : SyncEvent :=
  { position, start_context := vmexit.context, start_rip := vmexit.rip, start_reason := vmexit.type,
    data := vmexit.data }

/-- Appends the data of a point. -/
def SyncEvent.addData (e : SyncEvent) (p : SyncPoint) : SyncEvent := { e with data := e.data ++ p.data }

/-- Stores an interrupt in the event. -/
def SyncEvent.interrupt (e : SyncEvent) (p : SyncPoint) : SyncEvent :=
  { e with
    has_interrupt := true, interrupt_vector := p.interrupt_vector, interrupt_rip := p.rip,
    fault_error_code := p.fault_error_code }

/-- The exit reasons that always come with an emulated instruction. -/
def SyncPointType.alwaysEmulates (t : SyncPointType) : Bool :=
  t ∈ [.VMX_EXIT_IO_INSTR, .VMX_EXIT_CPUID, .VMX_EXIT_RDTSC, .VMX_EXIT_RDTSCP, .VMX_EXIT_RDMSR,
    .VMX_EXIT_MOV_CRX, .VMX_EXIT_EPT_MISCONFIG]

/-- The flag `is_instruction_emulation` after the switch on the exit reason, for an event that ends
at `rip`. -/
def SyncEvent.emulation (e : SyncEvent) (rip : UInt64) : Bool :=
  if e.start_reason.alwaysEmulates then true
  -- A HLT is skipped, not emulated.
  else if e.start_reason = .VMX_EXIT_HLT then e.is_instruction_emulation
  else if !e.is_first_event_context_unknown && rip != e.start_rip then true
  else e.is_instruction_emulation

/-- The end of `fetch_new_event`, on the last point of the event, at `position`. -/
def SyncEvent.finish (e : SyncEvent) (vmenter : SyncPoint) (position : ℕ) :
    Except RuntimeError SyncEvent := do
  let e := { e with new_context := vmenter.context, rflags := vmenter.rflags }
  let e := { e with is_instruction_emulation := e.emulation vmenter.rip }
  -- The point may be of any type so far; `check_sanity` sees only events that end with a VMEnter.
  if !vmenter.isVmenter then throw (.vmexitWithoutVmenter position)
  e.checkSanity
  return { e with is_valid := true }

/-- The test of `current_event` on the event that it holds: `position` is not 1, there is no
interrupt, and the context does not change. -/
def SyncEvent.withoutEffect (e : SyncEvent) : Bool :=
  e.position != 1 && !e.has_interrupt && e.start_context.areValuesEquivalent e.new_context

/-- The test of `current_event` on the next event: the two are to be matched at the same time. -/
def SyncEvent.mergesWith (e e_next : SyncEvent) : Bool :=
  e.new_context.areValuesEquivalent e_next.start_context && e.start_rip == e_next.start_rip &&
    !e.is_instruction_emulation

namespace SyncFile

/-- The loop of `fetch_new_event` that looks for a VMExit. It leaves with `.inl` when the file ends
before one is found. -/
def skipToVmexit (first_vmexit_missing : Bool) : SyncFile → Option (SyncFile ⊕ SyncFile) :=
  loop fun f => do
    if f.current.isVmexit || first_vmexit_missing then return .inr (.inr f)
    let f ← f.next
    return if f.current.valid then .inl f else .inr (.inl f)

/-- `fetch_new_event` on its last point. -/
def fetchVmenter (e : SyncEvent) (f : SyncFile) : Outcome SyncFile SyncEvent :=
  match e.finish f.current f.position with
  | .ok e => .returned e f
  | .error err => .thrown err f

/-- `fetch_new_event` on the point that follows its interrupt, or the report of it that is skipped. -/
def fetchAfterInterrupt (e : SyncEvent) (interrupt_sp : SyncPoint) (f : SyncFile) :
    Outcome SyncFile SyncEvent :=
  let e := e.addData f.current
  if !f.current.isEquivalent interrupt_sp then .thrown (.interruptContext f.position) f
  else fetchVmenter e f

/-- `fetch_new_event` on an interrupt. -/
def fetchInterrupt (e : SyncEvent) (f : SyncFile) : Option (Outcome SyncFile SyncEvent) := do
  let e := e.interrupt f.current
  let interrupt_sp := f.current
  let f ← f.next
  if !f.current.valid then return .returned e.last f
  -- A second report of the interrupt is skipped, its data too.
  if f.current.isInterrupt then
    if !f.current.isEquivalent interrupt_sp then return .thrown (.duplicatedInterrupt f.position) f
    let f ← f.next
    if !f.current.valid then return .returned e.last f
    return fetchAfterInterrupt e interrupt_sp f
  return fetchAfterInterrupt e interrupt_sp f

/-- `fetch_new_event` on the point after its VMExit, or on the first one if the VMExit is missing. -/
def fetchBody (e : SyncEvent) (f : SyncFile) : Option (Outcome SyncFile SyncEvent) :=
  let e := e.addData f.current
  if f.current.isInterrupt then fetchInterrupt e f else some (fetchVmenter e f)

/-- `fetch_new_event()`. -/
def fetchNewEvent (f : SyncFile) : Option (Outcome SyncFile SyncEvent) := do
  let first_vmexit_missing := !f.current.isVmexit && f.position == 1
  match ← skipToVmexit first_vmexit_missing f with
  | .inl f => return .returned {} f
  | .inr f =>
    -- The first record is then the point after the VMExit that is missing.
    if first_vmexit_missing then fetchBody (.startUnknown f.position) f
    else
      let e := SyncEvent.start f.position f.current
      let f ← f.next
      if !f.current.valid then return .returned e.last f
      fetchBody e f

/-- One pass of the loop of `current_event` that merges events without effect. -/
def mergePass : SyncEvent × SyncFile →
    Option (SyncEvent × SyncFile ⊕ Outcome SyncFile SyncEvent)
  | (event, f) =>
    if event.withoutEffect then do
      match ← f.fetchNewEvent with
      | .thrown err f => return .inr (.thrown err f)
      | .returned event_next f =>
        if event.mergesWith event_next then
          return .inl ({ event_next with start_context := event.start_context }, f)
        else
          -- Back to the record before the next event, whose VMExit the next call finds again.
          let f ← f.seek (pred64 event_next.position)
          return .inr (.returned event f)
    else some (.inr (.returned event f))

/-- `current_event()`. -/
def currentEvent (f : SyncFile) : Option (Outcome SyncFile SyncEvent) :=
  if f.current_event.is_valid || f.eof then some (.returned f.current_event f)
  else do
    match ← f.fetchNewEvent with
    | .thrown err f => return .thrown err f
    | .returned event f =>
      match ← loop mergePass (event, f) with
      | .thrown err f => return .thrown err f
      | .returned event f => return .returned event { f with current_event := event }

/-- The loop of `advance_to` that goes back to the VMExit of the event. -/
def backToVmexit (position : ℕ) (f : SyncFile) : Option SyncFile :=
  loop (fun (position, f) => do
    if !f.current.isVmexit && 1 < f.position then
      let position := pred64 position
      return .inl (position, ← f.seek position)
    else return .inr f) (position, f)

/-- `advance_to()`. -/
def advanceTo (position : ℕ) (f : SyncFile) : Option (Outcome SyncFile Unit) := do
  let f ← f.seek position
  if position = 0 then return .returned () f
  if f.current.isVmenter then
    -- A VMEnter ends an event, which is built again from its VMExit on.
    let f ← backToVmexit position f
    match ← f.currentEvent with
    | .thrown err f => return .thrown err f
    | .returned _ f => return .returned () f
  else return .returned () f

/-! ## Loading -/

/-- How `load` ends. -/
inductive LoadResult where
  | returned (b : Bool) (f : SyncFile)
  | thrown (err : RuntimeError) (f : SyncFile)
  /-- The record size of the header is zero, and the number of records is not a number. -/
  | divisionByZero

/-- The end of `load`, which opens the data file. -/
def loadData (data : Option (List UInt8)) (f : SyncFile) : LoadResult :=
  let data_file := f.data_file.load data
  if data_file.eof then .returned true { f with data_file := data_file.close }
  else
    let (magic, data_file) := extract readUInt64 data_file
    -- A data file that is too short for its magic number fails here too: the rest is read as zeros.
    if magic ≠ SYNC_POINT_DATA_MAGIC then
      .thrown (.dataMagic SYNC_POINT_DATA_MAGIC.toNat magic.toNat)
        { f with file := f.file.close, data_file := data_file.close }
    else .returned true { f with data_file }

/-- `load()` of a sync file and a data file with the given bytes, or that cannot be opened. -/
def load (file data : Option (List UInt8)) (f : SyncFile) : LoadResult :=
  let f := { f with file := f.file.load file, position := 0 }
  if f.file.eof || !f.file.opened then .returned false f
  else
    let (magic, file) := extract readUInt64 f.file
    let f := { f with file }
    if f.file.eof then .returned false { f with file := f.file.close }
    else if magic ≠ SYNC_POINT_MAGIC then
      .thrown (.magic SYNC_POINT_MAGIC.toNat magic.toNat)
        { f with file := f.file.close, record_size := 0 }
    else
      let (version, file) := extract readUInt32 f.file
      let (_vbox_version, file) := extract readUInt32 file
      let (record_size, file) := extract readUInt32 file
      let f := { f with file, version, record_size }
      if f.file.eof then .returned false { f with file := f.file.close }
      else if SYNC_POINT_FILE_VERSION < f.version then
        .thrown (.version SYNC_POINT_FILE_VERSION.toNat f.version.toNat)
          { f with file := f.file.close, record_size := 0 }
      else if f.record_size = 0 then .divisionByZero
      else
        -- The number of sync points in the file, from its length.
        let file := f.file.seekFromEnd 0
        let sync_point_count :=
          ((file.pos + (2 ^ 64 - HEADER_SIZE)) % 2 ^ 64) / f.record_size.toNat
        let f := { f with file := file.seek HEADER_SIZE, sync_point_count }
        if f.version = 0 then .returned true f else loadData data f

end SyncFile

end RvnSyncPoint
