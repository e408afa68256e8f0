import RvnSyncPoint.StreamableFile

/-!
# Synchronization points

`sync_point_v3`, the point that the reader hands out, `sync_point_v2`, the 32-bit point of the older
file formats, and the comparisons of points (`include/sync_point.h`, `src/sync_point.cpp`).
-/

namespace RvnSyncPoint

/-- `sync_point_type`: the low byte of a record's type word. Besides the named values, any byte can be
stored in it. -/
structure SyncPointType where
  value : UInt8
deriving DecidableEq

namespace SyncPointType

def VMENTER : SyncPointType := ⟨0xff⟩
def INTERRUPT : SyncPointType := ⟨0xfe⟩
def VMX_EXIT_XCPT_OR_NMI : SyncPointType := ⟨0⟩
def VMX_EXIT_CPUID : SyncPointType := ⟨10⟩
def VMX_EXIT_HLT : SyncPointType := ⟨12⟩
def VMX_EXIT_RDTSC : SyncPointType := ⟨16⟩
def VMX_EXIT_MOV_CRX : SyncPointType := ⟨28⟩
def VMX_EXIT_IO_INSTR : SyncPointType := ⟨30⟩
def VMX_EXIT_RDMSR : SyncPointType := ⟨31⟩
def VMX_EXIT_EPT_MISCONFIG : SyncPointType := ⟨49⟩
def VMX_EXIT_RDTSCP : SyncPointType := ⟨51⟩

end SyncPointType

/-- `sync_point_data_type::data_end`, which ends the blocks attached to a point. -/
def dataEnd : UInt32 := 0

/-- `sync_point_data`: a block of memory attached to a point. -/
structure SyncPointData where
  /-- Any value other than `dataEnd`; the named ones are `memory_logical` and `memory_physical`. -/
  type : UInt32
  offset : UInt64
  data : List UInt8
deriving DecidableEq

/-- `sync_point_v2`: the 32-bit synchronization point of the file versions below 3. -/
structure SyncPointV2 where
  eax : UInt32
  ebx : UInt32
  ecx : UInt32
  edx : UInt32
  esi : UInt32
  edi : UInt32
  ebp : UInt32
  esp : UInt32
  eip : UInt32
  eflags : UInt32
  tsc : UInt64
  cr0 : UInt32
  cr2 : UInt32
  cr3 : UInt32
  cr4 : UInt32
  fpu_sw : UInt16
  fpu_cw : UInt16
  fpu_tags : UInt8
  cs : UInt16
  interrupt_vector : UInt8
  fault_error_code : UInt16
  type : SyncPointType
deriving DecidableEq

/-- `sync_point`, that is `sync_point_v3`. The field defaults are those of its constructor. -/
structure SyncPoint where
  rax : UInt64 := 0
  rbx : UInt64 := 0
  rcx : UInt64 := 0
  rdx : UInt64 := 0
  rsi : UInt64 := 0
  rdi : UInt64 := 0
  rbp : UInt64 := 0
  rsp : UInt64 := 0
  r8 : UInt64 := 0
  r9 : UInt64 := 0
  r10 : UInt64 := 0
  r11 : UInt64 := 0
  r12 : UInt64 := 0
  r13 : UInt64 := 0
  r14 : UInt64 := 0
  r15 : UInt64 := 0
  rip : UInt64 := 0
  rflags : UInt64 := 0
  tsc : UInt64 := 0
  cr0 : UInt64 := 0
  cr2 : UInt64 := 0
  cr3 : UInt64 := 0
  cr4 : UInt64 := 0
  fpu_sw : UInt16 := 0
  fpu_cw : UInt16 := 0
  fpu_tags : UInt8 := 0
  cs : UInt16 := 0
  interrupt_vector : UInt8 := 0
  fault_error_code : UInt32 := 0
  type : SyncPointType := .VMENTER
  data : List SyncPointData := []
deriving DecidableEq

namespace SyncPoint

/-- `sync_point_v3(const sync_point_v2&)`. -/
def ofV2 (sp : SyncPointV2) : SyncPoint :=
  { rax := sp.eax.toUInt64, rbx := sp.ebx.toUInt64, rcx := sp.ecx.toUInt64, rdx := sp.edx.toUInt64,
    rsi := sp.esi.toUInt64, rdi := sp.edi.toUInt64, rbp := sp.ebp.toUInt64, rsp := sp.esp.toUInt64,
    r8 := 0, r9 := 0, r10 := 0, r11 := 0, r12 := 0, r13 := 0, r14 := 0, r15 := 0,
    rip := sp.eip.toUInt64, rflags := sp.eflags.toUInt64, tsc := sp.tsc,
    cr0 := sp.cr0.toUInt64, cr2 := sp.cr2.toUInt64, cr3 := sp.cr3.toUInt64, cr4 := sp.cr4.toUInt64,
    fpu_sw := sp.fpu_sw, fpu_cw := sp.fpu_cw, fpu_tags := sp.fpu_tags, cs := sp.cs,
    interrupt_vector := sp.interrupt_vector, fault_error_code := sp.fault_error_code.toUInt32,
    type := sp.type }

/-- `is_interrupt()`. -/
def isInterrupt (p : SyncPoint) : Bool := p.type = .INTERRUPT

/-- `is_vmenter()`. -/
def isVmenter (p : SyncPoint) : Bool := p.type = .VMENTER

/-- `is_vmexit()`. -/
def isVmexit (p : SyncPoint) : Bool := !p.isInterrupt && !p.isVmenter

/-- `valid()`. -/
def valid (p : SyncPoint) : Bool := p.tsc != 0

/-- `operator==`. It does not look at the FPU fields, nor at the attached data. -/
def operatorEq (lhs rhs : SyncPoint) : Bool :=
  lhs.rax == rhs.rax && lhs.rbx == rhs.rbx && lhs.rcx == rhs.rcx && lhs.rdx == rhs.rdx &&
  lhs.rsi == rhs.rsi && lhs.rdi == rhs.rdi && lhs.rbp == rhs.rbp && lhs.rsp == rhs.rsp &&
  lhs.r8 == rhs.r8 && lhs.r9 == rhs.r9 && lhs.r10 == rhs.r10 && lhs.r11 == rhs.r11 &&
  lhs.r12 == rhs.r12 && lhs.r13 == rhs.r13 && lhs.r14 == rhs.r14 && lhs.r15 == rhs.r15 &&
  lhs.rip == rhs.rip && lhs.rflags == rhs.rflags && lhs.tsc == rhs.tsc && lhs.cr0 == rhs.cr0 &&
  lhs.cr2 == rhs.cr2 && lhs.cr3 == rhs.cr3 && lhs.cr4 == rhs.cr4 && lhs.cs == rhs.cs &&
  lhs.interrupt_vector == rhs.interrupt_vector && lhs.fault_error_code == rhs.fault_error_code &&
  lhs.type == rhs.type

/-- `is_equivalent()`: the registers are the same. -/
def isEquivalent (p rhs : SyncPoint) : Bool :=
  p.rax == rhs.rax && p.rbx == rhs.rbx && p.rcx == rhs.rcx && p.rdx == rhs.rdx && p.rsi == rhs.rsi &&
  p.rdi == rhs.rdi && p.rbp == rhs.rbp && p.rsp == rhs.rsp && p.r8 == rhs.r8 && p.r9 == rhs.r9 &&
  p.r10 == rhs.r10 && p.r11 == rhs.r11 && p.r12 == rhs.r12 && p.r13 == rhs.r13 &&
  p.r14 == rhs.r14 && p.r15 == rhs.r15 && p.rip == rhs.rip && p.rflags == rhs.rflags &&
  p.cr0 == rhs.cr0 && p.cr2 == rhs.cr2 && p.cr3 == rhs.cr3 && p.cr4 == rhs.cr4 && p.cs == rhs.cs

/-! ## The comparisons as equalities -/

/-- What `operator==` compares: the point with the FPU fields and the data blanked. -/
def compared (p : SyncPoint) : SyncPoint :=
  { p with fpu_sw := 0, fpu_cw := 0, fpu_tags := 0, data := [] }

/-- What `is_equivalent` compares. -/
def equivalent (p : SyncPoint) : SyncPoint :=
  { p.compared with tsc := 0, interrupt_vector := 0, fault_error_code := 0, type := .VMENTER }

/-- `operator==` is the equality of what it compares. -/
theorem operatorEq_iff (p q : SyncPoint) : p.operatorEq q = true ↔ p.compared = q.compared := by
  simp only [operatorEq, compared, Bool.and_eq_true, beq_iff_eq, SyncPoint.mk.injEq]
  tauto

/-- `is_equivalent` is the equality of what it compares. -/
theorem isEquivalent_iff (p q : SyncPoint) :
    p.isEquivalent q = true ↔ p.equivalent = q.equivalent := by
  simp only [isEquivalent, equivalent, compared, Bool.and_eq_true, beq_iff_eq, SyncPoint.mk.injEq]
  tauto

end SyncPoint

end RvnSyncPoint
