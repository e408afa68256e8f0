import RvnSyncPoint.RuntimeError
import RvnSyncPoint.Sync.Point

/-!
# Synchronization events

`sync_event`, which aggregates the points of a VMExit, its interrupt and its VMEnter
(`include/sync_event.h`, `src/sync_event.cpp`). The checks of single registers in `check_sanity` are
compiled only with `RVN_MACHINES_DEBUG_SYNC`, which the build does not define.
-/

namespace RvnSyncPoint

/-- `sync_event::context`: the machine's registers. -/
structure Context where
  rax : UInt64 := 0
  rbx : UInt64 := 0
  rcx : UInt64 := 0
  rdx : UInt64 := 0
  rsi : UInt64 := 0
  rdi : UInt64 := 0
  rbp : UInt64 := 0
  rsp : UInt64 := 0
  r8 : UInt64 := 0
  r9 : UInt64 := 0
  r10 : UInt64 := 0
  r11 : UInt64 := 0
  r12 : UInt64 := 0
  r13 : UInt64 := 0
  r14 : UInt64 := 0
  r15 : UInt64 := 0
  cr0 : UInt64 := 0
  cr2 : UInt64 := 0
  cr3 : UInt64 := 0
  cr4 : UInt64 := 0
  fpu_sw : UInt16 := 0
  fpu_cw : UInt16 := 0
  fpu_tags : UInt8 := 0
  tsc : UInt64 := 0
deriving DecidableEq

namespace Context

/-- `are_values_equivalent()`. It looks neither at the TSC nor at the FPU fields. -/
def areValuesEquivalent (c other : Context) : Bool :=
  c.rax == other.rax && c.rbx == other.rbx && c.rcx == other.rcx && c.rdx == other.rdx &&
  c.rsi == other.rsi && c.rdi == other.rdi && c.rbp == other.rbp && c.rsp == other.rsp &&
  c.r8 == other.r8 && c.r9 == other.r9 && c.r10 == other.r10 && c.r11 == other.r11 &&
  c.r12 == other.r12 && c.r13 == other.r13 && c.r14 == other.r14 && c.r15 == other.r15 &&
  c.cr0 == other.cr0 && c.cr2 == other.cr2 && c.cr3 == other.cr3 && c.cr4 == other.cr4

/-- What `are_values_equivalent` compares: the context with the TSC and the FPU fields blanked. -/
def values (c : Context) : Context := { c with fpu_sw := 0, fpu_cw := 0, fpu_tags := 0, tsc := 0 }

/-- `are_values_equivalent` is the equality of what it compares. -/
theorem areValuesEquivalent_iff (c d : Context) :
    c.areValuesEquivalent d = true ↔ c.values = d.values := by
  simp only [areValuesEquivalent, values, Bool.and_eq_true, beq_iff_eq, Context.mk.injEq]
  tauto

end Context

/-- `sync_file::point_context_to_event`: the registers of a point. -/
def SyncPoint.context (sp : SyncPoint) : Context :=
  { rax := sp.rax, rbx := sp.rbx, rcx := sp.rcx, rdx := sp.rdx, rsi := sp.rsi, rdi := sp.rdi,
    rbp := sp.rbp, rsp := sp.rsp, r8 := sp.r8, r9 := sp.r9, r10 := sp.r10, r11 := sp.r11,
    r12 := sp.r12, r13 := sp.r13, r14 := sp.r14, r15 := sp.r15,
    cr0 := sp.cr0, cr2 := sp.cr2, cr3 := sp.cr3, cr4 := sp.cr4,
    fpu_sw := sp.fpu_sw, fpu_cw := sp.fpu_cw, fpu_tags := sp.fpu_tags, tsc := sp.tsc }

/-- `sync_event`, with its default member initialisers. -/
structure SyncEvent where
  /-- Position inside the file, in frames. -/
  position : ℕ := 0
  is_valid : Bool := false
  is_first_event_context_unknown : Bool := false
  start_rip : UInt64 := 0
  start_context : Context := {}
  start_reason : SyncPointType := .VMX_EXIT_XCPT_OR_NMI
  rflags : UInt64 := 0
  is_last_event : Bool := false
  has_interrupt : Bool := false
  interrupt_vector : UInt8 := 0
  interrupt_rip : UInt64 := 0
  fault_error_code : UInt32 := 0
  is_instruction_emulation : Bool := false
  new_context : Context := {}
  data : List SyncPointData := []
deriving DecidableEq

/-- `check_sanity()`. -/
def SyncEvent.checkSanity (e : SyncEvent) : Except RuntimeError Unit :=
  if !e.is_first_event_context_unknown && e.has_interrupt then
    if e.is_instruction_emulation && e.start_rip == e.interrupt_rip then
      .error .emulationWithImmediateInterrupt
    else if e.new_context.cr2 != e.start_context.cr2 && e.interrupt_vector != 0x0e then
      .error .cr2ChangeWithoutPageFault
    else if e.interrupt_vector < 0x20 && e.start_rip != e.interrupt_rip then
      .error .faultThatShouldWait
    else .ok ()
  else .ok ()

end RvnSyncPoint
