import RvnSyncPoint.Ostream
import RvnSyncPoint.Sync.Point

/-!
# The text of a point

`sync_point_type_to_string` and the `operator<<` of a point (`src/sync_point.cpp`). The text of a point
does not depend on the base, the fill character and the width that the stream was left with
(`Ostream.syncPoint_eq`), and it tells of the point exactly what `SyncPoint.shown` keeps
(`SyncPoint.text_inj`): neither the control registers `cr0` and `cr4`, nor `cs`, nor the data, nor the
interrupt's vector and error code unless the point is an interrupt, nor which of the types without a
name it has.
-/

namespace RvnSyncPoint

open Printing

/-! ## Types -/

namespace SyncPointType

def VMX_EXIT_EXT_INT : SyncPointType := ⟨1⟩
def VMX_EXIT_TRIPLE_FAULT : SyncPointType := ⟨2⟩
def VMX_EXIT_INIT_SIGNAL : SyncPointType := ⟨3⟩
def VMX_EXIT_SIPI : SyncPointType := ⟨4⟩
def VMX_EXIT_IO_SMI : SyncPointType := ⟨5⟩
def VMX_EXIT_SMI : SyncPointType := ⟨6⟩
def VMX_EXIT_INT_WINDOW : SyncPointType := ⟨7⟩
def VMX_EXIT_NMI_WINDOW : SyncPointType := ⟨8⟩
def VMX_EXIT_TASK_SWITCH : SyncPointType := ⟨9⟩
def VMX_EXIT_GETSEC : SyncPointType := ⟨11⟩
def VMX_EXIT_INVD : SyncPointType := ⟨13⟩
def VMX_EXIT_INVLPG : SyncPointType := ⟨14⟩
def VMX_EXIT_RDPMC : SyncPointType := ⟨15⟩
def VMX_EXIT_RSM : SyncPointType := ⟨17⟩
def VMX_EXIT_VMCALL : SyncPointType := ⟨18⟩
def VMX_EXIT_VMCLEAR : SyncPointType := ⟨19⟩
def VMX_EXIT_VMLAUNCH : SyncPointType := ⟨20⟩
def VMX_EXIT_VMPTRLD : SyncPointType := ⟨21⟩
def VMX_EXIT_VMPTRST : SyncPointType := ⟨22⟩
def VMX_EXIT_VMREAD : SyncPointType := ⟨23⟩
def VMX_EXIT_VMRESUME : SyncPointType := ⟨24⟩
def VMX_EXIT_VMWRITE : SyncPointType := ⟨25⟩
def VMX_EXIT_VMXOFF : SyncPointType := ⟨26⟩
def VMX_EXIT_VMXON : SyncPointType := ⟨27⟩
def VMX_EXIT_MOV_DRX : SyncPointType := ⟨29⟩
def VMX_EXIT_WRMSR : SyncPointType := ⟨32⟩
def VMX_EXIT_ERR_INVALID_GUEST_STATE : SyncPointType := ⟨33⟩
def VMX_EXIT_ERR_MSR_LOAD : SyncPointType := ⟨34⟩
def VMX_EXIT_MWAIT : SyncPointType := ⟨36⟩
def VMX_EXIT_MTF : SyncPointType := ⟨37⟩
def VMX_EXIT_MONITOR : SyncPointType := ⟨39⟩
def VMX_EXIT_PAUSE : SyncPointType := ⟨40⟩
def VMX_EXIT_ERR_MACHINE_CHECK : SyncPointType := ⟨41⟩
def VMX_EXIT_TPR_BELOW_THRESHOLD : SyncPointType := ⟨43⟩
def VMX_EXIT_APIC_ACCESS : SyncPointType := ⟨44⟩
def VMX_EXIT_XDTR_ACCESS : SyncPointType := ⟨46⟩
def VMX_EXIT_TR_ACCESS : SyncPointType := ⟨47⟩
def VMX_EXIT_EPT_VIOLATION : SyncPointType := ⟨48⟩
def VMX_EXIT_INVEPT : SyncPointType := ⟨50⟩
def VMX_EXIT_PREEMPT_TIMER : SyncPointType := ⟨52⟩
def VMX_EXIT_INVVPID : SyncPointType := ⟨53⟩
def VMX_EXIT_WBINVD : SyncPointType := ⟨54⟩
def VMX_EXIT_XSETBV : SyncPointType := ⟨55⟩
def VMX_EXIT_RDRAND : SyncPointType := ⟨57⟩
def VMX_EXIT_INVPCID : SyncPointType := ⟨58⟩
def VMX_EXIT_VMFUNC : SyncPointType := ⟨59⟩

end SyncPointType

/-- The cases of `sync_point_type_to_string`. -/
def typeNames : List (SyncPointType × String) := [
  (.VMENTER, "VMenter"),
  (.INTERRUPT, "Interrupt"),
  (.VMX_EXIT_XCPT_OR_NMI, "Exception or non-maskable interrupt (NMI)"),
  (.VMX_EXIT_EXT_INT, "External interrupt"),
  (.VMX_EXIT_TRIPLE_FAULT, "Triple fault"),
  (.VMX_EXIT_INIT_SIGNAL, "INIT signal"),
  (.VMX_EXIT_SIPI, "Start-up IPI (SIPI)"),
  (.VMX_EXIT_IO_SMI, "I/O system-management interrupt (SMI)"),
  (.VMX_EXIT_SMI, "Other SMI"),
  (.VMX_EXIT_INT_WINDOW, "Interrupt window exiting"),
  (.VMX_EXIT_NMI_WINDOW, "NMI window exiting"),
  (.VMX_EXIT_TASK_SWITCH, "Task switch"),
  (.VMX_EXIT_CPUID, "Guest software attempted to execute CPUID"),
  (.VMX_EXIT_GETSEC, "Guest software attempted to execute GETSEC"),
  (.VMX_EXIT_HLT, "Guest software attempted to execute HLT"),
  (.VMX_EXIT_INVD, "Guest software attempted to execute INVD"),
  (.VMX_EXIT_INVLPG, "Guest software attempted to execute INVLPG"),
  (.VMX_EXIT_RDPMC, "Guest software attempted to execute RDPMC"),
  (.VMX_EXIT_RDTSC, "Guest software attempted to execute RDTSC"),
  (.VMX_EXIT_RSM, "Guest software attempted to execute RSM in SMM"),
  (.VMX_EXIT_VMCALL, "Guest software executed VMCALL"),
  (.VMX_EXIT_VMCLEAR, "Guest software executed VMCLEAR"),
  (.VMX_EXIT_VMLAUNCH, "Guest software executed VMLAUNCH"),
  (.VMX_EXIT_VMPTRLD, "Guest software executed VMPTRLD"),
  (.VMX_EXIT_VMPTRST, "Guest software executed VMPTRST"),
  (.VMX_EXIT_VMREAD, "Guest software executed VMREAD"),
  (.VMX_EXIT_VMRESUME, "Guest software executed VMRESUME"),
  (.VMX_EXIT_VMWRITE, "Guest software executed VMWRITE"),
  (.VMX_EXIT_VMXOFF, "Guest software executed VMXOFF"),
  (.VMX_EXIT_VMXON, "Guest software executed VMXON"),
  (.VMX_EXIT_MOV_CRX, "Control-register accesses"),
  (.VMX_EXIT_MOV_DRX, "Debug-register accesses"),
  (.VMX_EXIT_IO_INSTR, "I/O instruction"),
  (.VMX_EXIT_RDMSR, "RDMSR"),
  (.VMX_EXIT_WRMSR, "WRMSR"),
  (.VMX_EXIT_ERR_INVALID_GUEST_STATE, "VM-entry failure due to invalid guest state"),
  (.VMX_EXIT_ERR_MSR_LOAD, "VM-entry failure due to MSR loading"),
  (.VMX_EXIT_MWAIT, "Guest software executed MWAIT"),
  (.VMX_EXIT_MTF, "VM exit due to monitor trap flag"),
  (.VMX_EXIT_MONITOR, "Guest software attempted to execute MONITOR"),
  (.VMX_EXIT_PAUSE, "Guest software attempted to execute PAUSE"),
  (.VMX_EXIT_ERR_MACHINE_CHECK, "VM-entry failure due to machine-check"),
  (.VMX_EXIT_TPR_BELOW_THRESHOLD, "TPR below threshold. Guest software executed MOV to CR8"),
  (.VMX_EXIT_APIC_ACCESS, "APIC access"),
  (.VMX_EXIT_XDTR_ACCESS, "Access to GDTR or IDTR"),
  (.VMX_EXIT_TR_ACCESS, "Access to LDTR or TR"),
  (.VMX_EXIT_EPT_VIOLATION, "EPT violation"),
  (.VMX_EXIT_EPT_MISCONFIG, "EPT misconfiguration"),
  (.VMX_EXIT_INVEPT, "INVEPT"),
  (.VMX_EXIT_RDTSCP, "RDTSCP"),
  (.VMX_EXIT_PREEMPT_TIMER, "VMX-preemption timer expired"),
  (.VMX_EXIT_INVVPID, "INVVPID"),
  (.VMX_EXIT_WBINVD, "WBINVD"),
  (.VMX_EXIT_XSETBV, "XSETBV"),
  (.VMX_EXIT_RDRAND, "RDRAND"),
  (.VMX_EXIT_INVPCID, "INVPCID"),
  (.VMX_EXIT_VMFUNC, "VMFUNC")]

/-- `sync_point_type_to_string`. -/
def syncPointTypeToString (code : SyncPointType) : String := (typeNames.lookup code).getD "Unknown"

/-- The type has a name. -/
def SyncPointType.Named (code : SyncPointType) : Prop := code ∈ typeNames.map Prod.fst

instance (code : SyncPointType) : Decidable code.Named := inferInstanceAs (Decidable (_ ∈ _))

/-- One of the types without a name. -/
def SyncPointType.unknown : SyncPointType := ⟨35⟩

/-- The type as its name shows it: the types without a name look all the same. -/
def SyncPointType.shown (code : SyncPointType) : SyncPointType := if code.Named then code else .unknown

theorem typeNames_nodup : (typeNames.map Prod.snd).Nodup := by decide

theorem unknown_not_mem : "Unknown" ∉ typeNames.map Prod.snd := by decide

theorem lookup_typeNames (code : SyncPointType) :
    (code.Named ∧ ∃ name, (code, name) ∈ typeNames ∧ syncPointTypeToString code = name) ∨
      ¬ code.Named ∧ syncPointTypeToString code = "Unknown" := by
  unfold syncPointTypeToString
  cases h : typeNames.lookup code with
  | some name =>
    obtain ⟨l, m, hl, -⟩ := List.lookup_eq_some_iff.mp h
    have hmem : (code, name) ∈ typeNames := by rw [hl]; simp
    exact .inl ⟨List.mem_map_of_mem hmem, name, hmem, rfl⟩
  | none =>
    refine .inr ⟨fun hnamed => ?_, rfl⟩
    obtain ⟨x, hx, hxc⟩ := List.mem_map.mp hnamed
    have hne := List.lookup_eq_none_iff.mp h x hx
    rw [hxc] at hne
    simp at hne

/-- Two types have the same text exactly when they are the same, or both have no name. -/
theorem syncPointTypeToString_inj {a b : SyncPointType} :
    syncPointTypeToString a = syncPointTypeToString b ↔ a.shown = b.shown := by
  have hunknown : ¬ SyncPointType.unknown.Named := by decide
  unfold SyncPointType.shown
  rcases lookup_typeNames a with ⟨ha, n, hn, han⟩ | ⟨ha, han⟩ <;>
    rcases lookup_typeNames b with ⟨hb, m, hm, hbm⟩ | ⟨hb, hbm⟩
  · rw [han, hbm, if_pos ha, if_pos hb]
    constructor
    · intro h
      have hpair : (a, n) = (b, m) := List.inj_on_of_nodup_map typeNames_nodup hn hm h
      exact (Prod.mk.inj hpair).1
    · rintro rfl
      rw [← han, ← hbm]
  · rw [han, hbm, if_pos ha, if_neg hb]
    refine iff_of_false (fun h => unknown_not_mem ?_) (fun h => hunknown (h ▸ ha))
    rw [← h]
    exact List.mem_map_of_mem hn
  · rw [han, hbm, if_neg ha, if_pos hb]
    refine iff_of_false (fun h => unknown_not_mem ?_) (fun h => hunknown (h ▸ hb))
    rw [h]
    exact List.mem_map_of_mem hm
  · rw [han, hbm, if_neg ha, if_neg hb]
    exact iff_of_true rfl rfl

theorem syncPointTypeToString_shown (code : SyncPointType) :
    syncPointTypeToString code.shown = syncPointTypeToString code := by
  have hunknown : ¬ SyncPointType.unknown.Named := by decide
  rw [syncPointTypeToString_inj]
  unfold SyncPointType.shown
  by_cases hnamed : code.Named
  · simp [hnamed]
  · simp [hnamed, hunknown]

/-- What the names have in common: they have neither `=` nor a line feed, do not begin with a blank, and
have at most 55 characters. -/
def PlainName (name : String) : Prop :=
  '=' ∉ name.toList ∧ '\n' ∉ name.toList ∧ name.toList.head? ≠ some ' ' ∧ name.toList.length ≤ 55

instance (name : String) : Decidable (PlainName name) := inferInstanceAs (Decidable (_ ∧ _))

theorem typeNames_plain : ∀ x ∈ typeNames, PlainName x.2 := by decide

theorem syncPointTypeToString_plain (code : SyncPointType) :
    PlainName (syncPointTypeToString code) := by
  rcases lookup_typeNames code with ⟨-, name, hmem, hname⟩ | ⟨-, hname⟩
  · rw [hname]
    exact typeNames_plain _ hmem
  · rw [hname]
    decide

/-! ## Points -/

/-- The registers of a point that are printed. -/
def pointRegisters : List (Row SyncPoint) := [
  ⟨"RIP", 16, fun point => point.rip.toNat⟩, ⟨"RFL", 16, fun point => point.rflags.toNat⟩,
  ⟨"RAX", 16, fun point => point.rax.toNat⟩, ⟨"RBX", 16, fun point => point.rbx.toNat⟩,
  ⟨"RCX", 16, fun point => point.rcx.toNat⟩, ⟨"RDX", 16, fun point => point.rdx.toNat⟩,
  ⟨"RSI", 16, fun point => point.rsi.toNat⟩, ⟨"RDI", 16, fun point => point.rdi.toNat⟩,
  ⟨"RBP", 16, fun point => point.rbp.toNat⟩, ⟨"RSP", 16, fun point => point.rsp.toNat⟩,
  ⟨"R8", 16, fun point => point.r8.toNat⟩, ⟨"R9", 16, fun point => point.r9.toNat⟩,
  ⟨"R10", 16, fun point => point.r10.toNat⟩, ⟨"R11", 16, fun point => point.r11.toNat⟩,
  ⟨"R12", 16, fun point => point.r12.toNat⟩, ⟨"R13", 16, fun point => point.r13.toNat⟩,
  ⟨"R14", 16, fun point => point.r14.toNat⟩, ⟨"R15", 16, fun point => point.r15.toNat⟩,
  ⟨"CR2", 16, fun point => point.cr2.toNat⟩, ⟨"CR3", 16, fun point => point.cr3.toNat⟩,
  ⟨"FSW", 4, fun point => point.fpu_sw.toNat⟩, ⟨"FCW", 4, fun point => point.fpu_cw.toNat⟩,
  ⟨"FTAGS", 2, fun point => point.fpu_tags.toNat⟩, ⟨"TSC", 16, fun point => point.tsc.toNat⟩]

namespace Ostream

/-- `out << " NAME=" << std::setw(width) << value`. -/
def entry (x : Entry) (out : Ostream) : Ostream :=
  out |>.str (" " ++ x.name ++ "=") |>.setw x.width |>.number x.value

/-- The insertions of entries, one after the other. -/
def entries (xs : List Entry) (out : Ostream) : Ostream := xs.foldl (fun out x => out.entry x) out

/-- `out << point`. -/
def syncPoint (point : SyncPoint) (out : Ostream) : Ostream :=
  let out := out.hex
  let out :=
    if point.isInterrupt then
      out |>.setfill ' ' |>.setw 45 |>.str "Interrupt 0x" |>.setw 2
        |>.number point.interrupt_vector.toNat |>.setfill '0' |>.str "-" |>.setw 8
        |>.number point.fault_error_code.toNat
    else
      out |>.setfill ' ' |>.setw 47 |>.str (syncPointTypeToString point.type) |>.setfill '0'
  out |>.entries (listing pointRegisters point) |>.dec

/-- Entries in hexadecimal. -/
theorem entries_eq (xs : List Entry) (t : List Char) :
    (Ostream.mk t .hex false '0' 0).entries xs = ⟨t ++ xs.flatMap Entry.text, .hex, false, '0', 0⟩ := by
  induction xs generalizing t with
  | nil => simp [entries]
  | cons x xs ih =>
    have hentry : (Ostream.mk t .hex false '0' 0).entry x = ⟨t ++ x.text, .hex, false, '0', 0⟩ := by
      simp [entry, str, setw, number, insert, numeral, Base.radix, Entry.text, List.leftpad]
    unfold entries at ih ⊢
    rw [List.foldl_cons, hentry, ih, List.flatMap_cons, List.append_assoc]

end Ostream

/-- What is printed before the registers. -/
def SyncPoint.head (p : SyncPoint) : List Char :=
  if p.isInterrupt then
    "Interrupt 0x".toList.leftpad 45 ' ' ++ (Nat.toDigits 16 p.interrupt_vector.toNat).leftpad 2 ' ' ++
      '-' :: (Nat.toDigits 16 p.fault_error_code.toNat).leftpad 8 '0'
  else (syncPointTypeToString p.type).toList.leftpad 47 ' '

/-- The text of a point. -/
def SyncPoint.text (p : SyncPoint) : List Char := p.head ++ (listing pointRegisters p).flatMap Entry.text

/-- The text does not depend on the base, the fill character and the width of the stream, which is left
with its own ones. -/
theorem Ostream.syncPoint_eq (p : SyncPoint) {out : Ostream} (h : out.showbase = false) :
    out.syncPoint p = ⟨out.text ++ p.text, .dec, false, '0', 0⟩ := by
  obtain ⟨t, base, showbase, fill, width⟩ := out
  obtain rfl : showbase = false := h
  have hhead : (Ostream.mk t base false fill width).syncPoint p =
      ((Ostream.mk (t ++ p.head) .hex false '0' 0).entries (listing pointRegisters p)).dec := by
    unfold syncPoint SyncPoint.head
    split_ifs
    · simp [hex, setfill, setw, str, number, insert, numeral, Base.radix, List.leftpad]
    · simp [hex, setfill, setw, str, insert]
  rw [hhead, entries_eq, SyncPoint.text, ← List.append_assoc]
  rfl

/-! ## What the text tells -/

/-- The point as its text shows it. -/
def SyncPoint.shown (p : SyncPoint) : SyncPoint :=
  { p with
    cr0 := 0, cr4 := 0, cs := 0, data := [], type := p.type.shown
    interrupt_vector := if p.isInterrupt then p.interrupt_vector else 0
    fault_error_code := if p.isInterrupt then p.fault_error_code else 0 }

section

variable {p q : SyncPoint}

theorem pointRegisters_proper : Proper pointRegisters where
  nodup := by decide
  name := by decide
  width_pos := by decide
  get_lt a := by
    have h64 (n : UInt64) : n.toNat < 16 ^ 16 := n.toNat_lt
    have h16 (n : UInt16) : n.toNat < 16 ^ 4 := n.toNat_lt
    have h8 (n : UInt8) : n.toNat < 16 ^ 2 := n.toNat_lt
    simp only [pointRegisters, List.forall_mem_cons, h64, h16, h8, true_and]
    exact List.forall_mem_nil _

/-- The heads of interrupts are longer than those of the other points. -/
theorem SyncPoint.head_length (p : SyncPoint) : p.head.length = 56 ↔ p.isInterrupt = true := by
  unfold head
  split_ifs with h
  · have hvec : p.interrupt_vector.toNat < 16 ^ 2 := p.interrupt_vector.toNat_lt
    have hcode : p.fault_error_code.toNat < 16 ^ 8 := p.fault_error_code.toNat_lt
    simp only [List.length_append, List.length_cons, h, iff_true]
    rw [length_leftpad_toDigits (by norm_num) (by norm_num) hvec,
      length_leftpad_toDigits (by norm_num) (by norm_num) hcode]
    rfl
  · have hname := (syncPointTypeToString_plain p.type).2.2.2
    rw [List.length_leftpad]
    exact iff_of_false (by omega) h

/-- The heads of two points. -/
theorem SyncPoint.head_inj (h : p.head = q.head) : p.type.shown = q.type.shown ∧
    (p.isInterrupt = true →
      p.interrupt_vector = q.interrupt_vector ∧ p.fault_error_code = q.fault_error_code) := by
  have hkind : p.isInterrupt = q.isInterrupt := by
    rw [Bool.eq_iff_iff, ← head_length, ← head_length, h]
  by_cases hp : p.isInterrupt = true
  · have hq : q.isInterrupt = true := hkind ▸ hp
    have htype : p.type = q.type := (of_decide_eq_true hp).trans (of_decide_eq_true hq).symm
    have hvec (p : SyncPoint) : p.interrupt_vector.toNat < 16 ^ 2 := p.interrupt_vector.toNat_lt
    rw [head, head, if_pos hp, if_pos hq, List.append_assoc, List.append_assoc] at h
    -- Three fields of fixed widths.
    obtain ⟨hvector, hcode⟩ := List.append_inj (List.append_cancel_left h)
      (by rw [length_leftpad_toDigits (by norm_num) (by norm_num) (hvec p),
        length_leftpad_toDigits (by norm_num) (by norm_num) (hvec q)])
    refine ⟨by rw [htype], fun _ => ⟨?_, ?_⟩⟩
    · exact UInt8.toNat_inj.mp (leftpad_toDigits_injective (by norm_num) le_rfl rfl hvector)
    · exact UInt32.toNat_inj.mp
        (leftpad_toDigits_injective (by norm_num) le_rfl rfl (List.cons.inj hcode).2)
  · have hq : ¬ q.isInterrupt = true := hkind ▸ hp
    rw [head, head, if_neg hp, if_neg hq] at h
    refine ⟨syncPointTypeToString_inj.mp (String.toList_injective ?_), fun h => absurd h hp⟩
    exact leftpad_injective (syncPointTypeToString_plain _).2.2.1
      (syncPointTypeToString_plain _).2.2.1 h

theorem SyncPoint.not_mem_head {c : Char} (hdigit : ∀ d < 16, c ≠ Nat.digitChar d)
    (hc : c ∉ "Interrupt 0x-".toList) (hname : ∀ code, c ∉ (syncPointTypeToString code).toList) :
    c ∉ p.head := by
  have hnum (n : ℕ) : c ∉ Nat.toDigits 16 n := not_mem_numeral (by norm_num) le_rfl hdigit n
  have hblank : c ≠ ' ' := fun h => hc (by rw [h]; decide)
  have hdash : c ≠ '-' := fun h => hc (by rw [h]; decide)
  have hword : c ∉ "Interrupt 0x".toList := fun h => hc (by
    rw [show "Interrupt 0x-".toList = "Interrupt 0x".toList ++ ['-'] from rfl]
    exact List.mem_append_left _ h)
  unfold head
  split_ifs
  · rw [List.mem_append, List.mem_append, List.mem_cons, not_or, not_or, not_or]
    exact ⟨⟨not_mem_leftpad hblank hword, not_mem_leftpad hblank (hnum _)⟩, hdash,
      not_mem_leftpad (hdigit 0 (by norm_num)) (hnum _)⟩
  · exact not_mem_leftpad hblank (hname _)

/-- The registers that are printed are the same. -/
theorem SyncPoint.registers_inj (h : ∀ r ∈ pointRegisters, r.get p = r.get q) :
    { p.shown with type := .VMENTER, interrupt_vector := 0, fault_error_code := 0 } =
      { q.shown with type := .VMENTER, interrupt_vector := 0, fault_error_code := 0 } := by
  simp only [pointRegisters, List.forall_mem_cons, UInt64.toNat_inj, UInt16.toNat_inj,
    UInt8.toNat_inj] at h
  simp only [shown, SyncPoint.mk.injEq]
  tauto

/-- The text of a point, up to the end of the line, tells what is shown of it. -/
theorem SyncPoint.text_append_inj {s t : List Char} (h : p.text ++ '\n' :: s = q.text ++ '\n' :: t) :
    p.shown = q.shown ∧ s = t := by
  -- The head ends before the name of the first register.
  have hsplit (p : SyncPoint) : ∃ rest, p.text = (p.head ++ " RIP".toList) ++ '=' :: rest :=
    ⟨_, by simp [text, listing, pointRegisters, Row.entry, Entry.text]; rfl⟩
  have hnot (p : SyncPoint) : '=' ∉ p.head ++ " RIP".toList := by
    rw [List.mem_append, not_or]
    exact ⟨not_mem_head (by decide) (by decide) fun code => (syncPointTypeToString_plain code).1,
      by decide⟩
  have hhead : p.head = q.head := by
    obtain ⟨u, hu⟩ := hsplit p
    obtain ⟨v, hv⟩ := hsplit q
    rw [hu, hv, List.append_assoc _ _ ('\n' :: s), List.append_assoc _ _ ('\n' :: t)] at h
    exact List.append_cancel_right (append_cons_inj (hnot p) (hnot q) h).1
  rw [text, text, hhead, List.append_assoc, List.append_assoc] at h
  obtain ⟨hregisters, hst⟩ := pointRegisters_proper.listing_inj (by decide)
    (List.append_cancel_left h)
  refine ⟨?_, hst⟩
  obtain ⟨htype, hinterrupt⟩ := head_inj hhead
  have hkind : p.isInterrupt = q.isInterrupt := by
    rw [Bool.eq_iff_iff, ← head_length, ← head_length, hhead]
  have hrest := registers_inj hregisters
  simp only [shown, SyncPoint.mk.injEq, ← hkind] at hrest ⊢
  split_ifs with hp
  · obtain ⟨hvector, hcode⟩ := hinterrupt hp
    tauto
  · tauto

/-- Nothing else of the point is looked at. -/
theorem SyncPoint.text_shown (p : SyncPoint) : p.shown.text = p.text := by
  have hkind : p.shown.isInterrupt = p.isInterrupt := by
    unfold isInterrupt shown SyncPointType.shown
    by_cases hnamed : p.type.Named
    · simp [hnamed]
    · have hne : p.type ≠ .INTERRUPT := fun h => hnamed (by rw [h]; decide)
      simp only [hnamed, if_false, hne]
      decide
  have hname : syncPointTypeToString p.shown.type = syncPointTypeToString p.type :=
    syncPointTypeToString_shown p.type
  have hlisting : listing pointRegisters p.shown = listing pointRegisters p := rfl
  unfold text head
  rw [hkind, hname, hlisting]
  split_ifs with hp
  · simp [shown, hp]
  · rfl

/-- Two points have the same text exactly when what is shown of them is the same. -/
theorem SyncPoint.text_inj : p.text = q.text ↔ p.shown = q.shown := by
  constructor
  · intro h
    have hline : p.text ++ '\n' :: [] = q.text ++ '\n' :: [] := by rw [h]
    exact (text_append_inj hline).1
  · intro h
    rw [← text_shown p, h, text_shown]

end

end RvnSyncPoint
