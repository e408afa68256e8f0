import RvnSyncPoint.Sync.Event
import RvnSyncPoint.Sync.PointText

/-!
# The text of an event

The `operator<<` of an event (`src/sync_event.cpp`). Of the registers at the end of the event it prints
only those that changed, and of an interrupt's address only whether it is the one that the event starts
at. Still, an event's text and what may follow it tell where the text ends, and all of the event that
`SyncEvent.shown` keeps (`SyncEvent.text_determines`): what is left out can be found in the lines before.
-/

namespace RvnSyncPoint

open Printing

/-- The registers of a context that are printed. -/
def contextRegisters : List (Row Context) := [
  ⟨"RAX", 16, fun context => context.rax.toNat⟩, ⟨"RBX", 16, fun context => context.rbx.toNat⟩,
  ⟨"RCX", 16, fun context => context.rcx.toNat⟩, ⟨"RDX", 16, fun context => context.rdx.toNat⟩,
  ⟨"RSI", 16, fun context => context.rsi.toNat⟩, ⟨"RDI", 16, fun context => context.rdi.toNat⟩,
  ⟨"RBP", 16, fun context => context.rbp.toNat⟩, ⟨"RSP", 16, fun context => context.rsp.toNat⟩,
  ⟨"R8", 16, fun context => context.r8.toNat⟩, ⟨"R9", 16, fun context => context.r9.toNat⟩,
  ⟨"R10", 16, fun context => context.r10.toNat⟩, ⟨"R11", 16, fun context => context.r11.toNat⟩,
  ⟨"R12", 16, fun context => context.r12.toNat⟩, ⟨"R13", 16, fun context => context.r13.toNat⟩,
  ⟨"R14", 16, fun context => context.r14.toNat⟩, ⟨"R15", 16, fun context => context.r15.toNat⟩,
  ⟨"CR0", 16, fun context => context.cr0.toNat⟩, ⟨"CR2", 16, fun context => context.cr2.toNat⟩,
  ⟨"CR3", 16, fun context => context.cr3.toNat⟩, ⟨"CR4", 16, fun context => context.cr4.toNat⟩,
  ⟨"FSW", 4, fun context => context.fpu_sw.toNat⟩, ⟨"FCW", 4, fun context => context.fpu_cw.toNat⟩,
  ⟨"FTAGS", 2, fun context => context.fpu_tags.toNat⟩, ⟨"TSC", 16, fun context => context.tsc.toNat⟩]

/-- The registers at the start of an event, after its address. -/
def startRegisters : List (Row SyncEvent) :=
  ⟨"RFL", 16, fun event => event.rflags.toNat⟩ ::
    contextRegisters.map fun r => ⟨r.name, r.width, fun event => r.get event.start_context⟩

/-- `COMPARE_AND_DISPLAY`: is the register of the new context printed? -/
def SyncEvent.displays (event : SyncEvent) (r : Row Context) : Bool :=
  event.is_first_event_context_unknown || r.get event.new_context != r.get event.start_context

namespace Ostream

/-- The line of an event's position and reason. -/
def eventReason (event : SyncEvent) (out : Ostream) : Ostream :=
  out |>.str "Sync Event pos $" |>.number event.position |>.str " - "
    |>.str (syncPointTypeToString event.start_reason) |>.endl

/-- The line of the context that an event starts with. -/
def eventStart (event : SyncEvent) (out : Ostream) : Ostream :=
  let out :=
    if !event.is_first_event_context_unknown then
      out |>.str "RIP=" |>.setw 16 |>.number event.start_rip.toNat |>.entries (listing startRegisters event)
    else out.str "First event with unknown VMExit: no input context"
  out.endl

/-- The line of an event's interrupt, if there is one. -/
def eventInterrupt (event : SyncEvent) (out : Ostream) : Ostream :=
  if event.has_interrupt then
    let out := out |>.str "Interrupt 0x" |>.setw 2 |>.number event.interrupt_vector.toNat |>.setfill '0'
    let out :=
      if event.is_first_event_context_unknown || event.interrupt_rip != event.start_rip then
        out |>.str " at " |>.setw 16 |>.number event.interrupt_rip.toNat
      else out.str " now"
    out |>.str " with code " |>.setw 8 |>.number event.fault_error_code.toNat |>.endl
  else out

/-- The line of the context that an event ends with. -/
def eventNew (event : SyncEvent) (out : Ostream) : Ostream :=
  let out :=
    if event.is_last_event then out.str "Is last!"
    else
      out |>.str "New context " |>.str (if event.is_instruction_emulation then "emulated" else "to check")
        |>.str " :" |>.entries (select contextRegisters event.displays event.new_context)
  out.endl

/-- `out << event`. -/
def syncEvent (event : SyncEvent) (out : Ostream) : Ostream :=
  if !event.is_valid then out |>.str "Invalid event." |>.endl
  else
    out |>.eventReason event |>.hex |>.setfill '0' |>.eventStart event |>.eventInterrupt event
      |>.eventNew event |>.dec

end Ostream

/-! ## The text, line by line -/

namespace SyncEvent

/-- The position and the reason. -/
def reasonLine (e : SyncEvent) : List Char :=
  "Sync Event pos $".toList ++ Nat.toDigits 10 e.position ++ " - ".toList ++
    (syncPointTypeToString e.start_reason).toList ++ ['\n']

/-- The context at the start. -/
def startLine (e : SyncEvent) : List Char :=
  if e.is_first_event_context_unknown then
    "First event with unknown VMExit: no input context".toList ++ ['\n']
  else
    "RIP=".toList ++ (Nat.toDigits 16 e.start_rip.toNat).leftpad 16 '0' ++
      ((listing startRegisters e).flatMap Entry.text ++ ['\n'])

/-- The interrupt. -/
def interruptLine (e : SyncEvent) : List Char :=
  "Interrupt 0x".toList ++ (Nat.toDigits 16 e.interrupt_vector.toNat).leftpad 2 '0' ++
    (if e.is_first_event_context_unknown || e.interrupt_rip != e.start_rip then
      " at ".toList ++ (Nat.toDigits 16 e.interrupt_rip.toNat).leftpad 16 '0'
    else " now".toList) ++
    " with code ".toList ++ (Nat.toDigits 16 e.fault_error_code.toNat).leftpad 8 '0' ++ ['\n']

/-- The context at the end. -/
def newLine (e : SyncEvent) : List Char :=
  if e.is_last_event then "Is last!".toList ++ ['\n']
  else
    "New context ".toList ++ (if e.is_instruction_emulation then "emulated" else "to check").toList ++
      " :".toList ++ ((select contextRegisters e.displays e.new_context).flatMap Entry.text ++ ['\n'])

/-- The text of an event. -/
def text (e : SyncEvent) : List Char :=
  if e.is_valid then
    e.reasonLine ++ e.startLine ++ ((if e.has_interrupt then e.interruptLine else []) ++ e.newLine)
  else "Invalid event.".toList ++ ['\n']

end SyncEvent

section

variable (t : List Char) (e : SyncEvent)

theorem Ostream.eventReason_eq (fill : Char) : (Ostream.mk t .dec false fill 0).eventReason e =
    ⟨t ++ e.reasonLine, .dec, false, fill, 0⟩ := by
  unfold eventReason SyncEvent.reasonLine
  rw [str_mk_zero, number_mk_zero, str_mk_zero, str_mk_zero, numeral_dec, endl]
  simp

theorem Ostream.eventStart_eq :
    (Ostream.mk t .hex false '0' 0).eventStart e = ⟨t ++ e.startLine, .hex, false, '0', 0⟩ := by
  have hnumber (t : List Char) : ((Ostream.mk t .hex false '0' 0).setw 16).number e.start_rip.toNat =
      ⟨t ++ (Nat.toDigits 16 e.start_rip.toNat).leftpad 16 '0', .hex, false, '0', 0⟩ := by
    simp [setw, number, insert]
  unfold eventStart SyncEvent.startLine
  cases e.is_first_event_context_unknown with
  | true => simp [endl]
  | false =>
    simp only [Bool.not_false, if_true, Bool.false_eq_true, if_false]
    rw [str_mk_zero, hnumber, entries_eq, endl]
    simp

theorem Ostream.eventInterrupt_eq : (Ostream.mk t .hex false '0' 0).eventInterrupt e =
    ⟨t ++ (if e.has_interrupt then e.interruptLine else []), .hex, false, '0', 0⟩ := by
  unfold eventInterrupt SyncEvent.interruptLine
  split_ifs
  · simp [setw, setfill, number, insert, endl]
  · simp [setw, setfill, number, insert, endl]
  · simp

theorem Ostream.eventNew_eq :
    (Ostream.mk t .hex false '0' 0).eventNew e = ⟨t ++ e.newLine, .hex, false, '0', 0⟩ := by
  unfold eventNew SyncEvent.newLine
  split_ifs
  · simp [endl]
  · rw [str_mk_zero, str_mk_zero, str_mk_zero, entries_eq, endl]
    simp
  · rw [str_mk_zero, str_mk_zero, str_mk_zero, entries_eq, endl]
    simp

/-- A decimal stream stays one. -/
theorem Ostream.syncEvent_eq (fill : Char) : ∃ fill', (Ostream.mk t .dec false fill 0).syncEvent e =
    ⟨t ++ e.text, .dec, false, fill', 0⟩ := by
  unfold syncEvent SyncEvent.text
  cases e.is_valid with
  | false => exact ⟨fill, by simp [endl]⟩
  | true =>
    refine ⟨'0', ?_⟩
    simp only [Bool.not_true, Bool.false_eq_true, if_false, if_true, eventReason_eq]
    have hhex : ((Ostream.mk (t ++ e.reasonLine) .dec false fill 0).hex).setfill '0' =
        ⟨t ++ e.reasonLine, .hex, false, '0', 0⟩ := rfl
    rw [hhex, eventStart_eq, eventInterrupt_eq, eventNew_eq, dec]
    simp

end

/-! ## What the text tells -/

/-- The event as its text shows it. -/
def SyncEvent.shown (e : SyncEvent) : SyncEvent :=
  if e.is_valid then
    { e with
      start_reason := e.start_reason.shown, data := []
      start_rip := if e.is_first_event_context_unknown then 0 else e.start_rip
      rflags := if e.is_first_event_context_unknown then 0 else e.rflags
      start_context := if e.is_first_event_context_unknown then {} else e.start_context
      interrupt_vector := if e.has_interrupt then e.interrupt_vector else 0
      interrupt_rip := if e.has_interrupt then e.interrupt_rip else 0
      fault_error_code := if e.has_interrupt then e.fault_error_code else 0
      is_instruction_emulation := if e.is_last_event then false else e.is_instruction_emulation
      new_context := if e.is_last_event then {} else e.new_context }
  else {}

theorem contextRegisters_proper : Proper contextRegisters where
  nodup := by decide
  name := by decide
  width_pos := by decide
  get_lt a := by
    have h64 (n : UInt64) : n.toNat < 16 ^ 16 := n.toNat_lt
    have h16 (n : UInt16) : n.toNat < 16 ^ 4 := n.toNat_lt
    have h8 (n : UInt8) : n.toNat < 16 ^ 2 := n.toNat_lt
    simp only [contextRegisters, List.forall_mem_cons, h64, h16, h8, true_and]
    exact List.forall_mem_nil _

theorem startRegisters_proper : Proper startRegisters where
  nodup := by decide
  name := by decide
  width_pos := by decide
  get_lt e := by
    have hrow := contextRegisters_proper.get_lt e.start_context
    rw [startRegisters, List.forall_mem_cons, List.forall_mem_map]
    exact ⟨e.rflags.toNat_lt, hrow⟩

/-- The registers of a context are printed, all of them. -/
theorem Context.eq_of_registers {c d : Context} (h : ∀ r ∈ contextRegisters, r.get c = r.get d) :
    c = d := by
  simp only [contextRegisters, List.forall_mem_cons, UInt64.toNat_inj, UInt16.toNat_inj,
    UInt8.toNat_inj] at h
  cases c
  cases d
  simp_all

namespace SyncEvent

/-- What the first line tells. -/
def SameReasonLine (a b : SyncEvent) : Prop :=
  a.position = b.position ∧ a.start_reason.shown = b.start_reason.shown

/-- What the line of the first context tells. -/
def SameStartLine (a b : SyncEvent) : Prop :=
  a.is_first_event_context_unknown = b.is_first_event_context_unknown ∧
    (a.is_first_event_context_unknown = false →
      a.start_rip = b.start_rip ∧ a.rflags = b.rflags ∧ a.start_context = b.start_context)

/-- What the line of the interrupt tells. -/
def SameInterruptLine (a b : SyncEvent) : Prop :=
  a.interrupt_vector = b.interrupt_vector ∧ a.interrupt_rip = b.interrupt_rip ∧
    a.fault_error_code = b.fault_error_code

/-- What the line of the second context tells. -/
def SameNewLine (a b : SyncEvent) : Prop :=
  a.is_last_event = b.is_last_event ∧ (a.is_last_event = false →
    a.is_instruction_emulation = b.is_instruction_emulation ∧ a.new_context = b.new_context)

theorem reasonLine_determines : Determines (fun _ _ => True) reasonLine SameReasonLine := by
  intro a b s t _ h
  have hdigits (n : ℕ) : ' ' ∉ Nat.toDigits 10 n :=
    not_mem_numeral (by norm_num) (by norm_num) (by decide) n
  have hdash : " - ".toList = ' ' :: ['-', ' '] := rfl
  unfold reasonLine at h
  simp only [List.append_assoc] at h
  have hline := List.append_cancel_left h
  rw [hdash] at hline
  obtain ⟨hposition, hrest⟩ := append_cons_inj (hdigits _) (hdigits _) hline
  obtain ⟨-, hrest⟩ := List.cons.inj hrest
  obtain ⟨-, hrest⟩ := List.cons.inj hrest
  obtain ⟨hname, hst⟩ := append_cons_inj (syncPointTypeToString_plain _).2.1
    (syncPointTypeToString_plain _).2.1 hrest
  exact ⟨⟨toDigits_injective (by norm_num) (by norm_num) hposition,
    syncPointTypeToString_inj.mp (String.toList_injective hname)⟩, hst⟩

/-- A 64-bit number in 16 digits. -/
theorem address_determines {α : Type} {P : α → α → Prop} (k : α → UInt64) :
    Determines P (fun a => (Nat.toDigits 16 (k a).toNat).leftpad 16 '0') fun a b => P a b ∧ k a = k b := by
  have hlength (n : UInt64) : ((Nat.toDigits 16 n.toNat).leftpad 16 '0').length = 16 :=
    length_leftpad_toDigits (by norm_num) (by norm_num) n.toNat_lt
  refine .of_length (fun a b _ => by rw [hlength, hlength]) fun a b hP h => ⟨hP, ?_⟩
  exact UInt64.toNat_inj.mp (leftpad_toDigits_injective (by norm_num) le_rfl rfl h)

theorem startLine_determines : Determines (fun _ _ => True) startLine SameStartLine := by
  refine .ite_shown ?_ ?_ ?_
  · intro a b s t _ _ h
    exact absurd (List.cons.inj h).1 (by decide)
  · refine .consequence (.literal _) (fun _ _ h => h) fun a b ⟨_, ha, hb⟩ _ =>
      ⟨ha.trans hb.symm, fun h => ?_⟩
    rw [h] at ha
    cases ha
  · refine .append (.append (.literal _) (address_determines start_rip)) ?_
    intro a b s t ⟨⟨_, ha, hb⟩, hrip⟩ h
    rw [List.append_assoc, List.append_assoc] at h
    obtain ⟨hrows, hst⟩ := startRegisters_proper.listing_inj (by decide) h
    rw [startRegisters, List.forall_mem_cons, List.forall_mem_map] at hrows
    rw [Bool.not_eq_true] at ha hb
    exact ⟨⟨ha.trans hb.symm, fun _ => ⟨hrip, UInt64.toNat_inj.mp hrows.1,
      Context.eq_of_registers hrows.2⟩⟩, hst⟩

theorem interruptLine_determines : Determines SameStartLine interruptLine SameInterruptLine := by
  have hvector : Determines SameStartLine
      (fun e => "Interrupt 0x".toList ++ (Nat.toDigits 16 e.interrupt_vector.toNat).leftpad 2 '0')
      fun a b => SameStartLine a b ∧ a.interrupt_vector = b.interrupt_vector := by
    have hlength (n : UInt8) : ((Nat.toDigits 16 n.toNat).leftpad 2 '0').length = 2 :=
      length_leftpad_toDigits (by norm_num) (by norm_num) n.toNat_lt
    refine .append (.literal _) (.keep (.of_length (fun a b _ => by rw [hlength, hlength]) ?_))
    exact fun a b _ h =>
      UInt8.toNat_inj.mp (leftpad_toDigits_injective (by norm_num) le_rfl rfl h)
  have hcode {P : SyncEvent → SyncEvent → Prop} : Determines P
      (fun e => (Nat.toDigits 16 e.fault_error_code.toNat).leftpad 8 '0')
      fun a b => P a b ∧ a.fault_error_code = b.fault_error_code := by
    have hlength (n : UInt32) : ((Nat.toDigits 16 n.toNat).leftpad 8 '0').length = 8 :=
      length_leftpad_toDigits (by norm_num) (by norm_num) n.toNat_lt
    refine .keep (.of_length (fun a b _ => by rw [hlength, hlength]) ?_)
    exact fun a b _ h =>
      UInt32.toNat_inj.mp (leftpad_toDigits_injective (by norm_num) le_rfl rfl h)
  -- Where the address is not printed, it is that of the start, which is known.
  have hrip : Determines (fun a b => SameStartLine a b ∧ a.interrupt_vector = b.interrupt_vector)
      (fun e => if e.is_first_event_context_unknown || e.interrupt_rip != e.start_rip then
        " at ".toList ++ (Nat.toDigits 16 e.interrupt_rip.toNat).leftpad 16 '0'
        else " now".toList)
      fun a b => a.interrupt_vector = b.interrupt_vector ∧ a.interrupt_rip = b.interrupt_rip := by
    refine .ite_shown ?_ ?_ ?_
    · intro a b s t _ _ h
      exact absurd (List.cons.inj (List.cons.inj h).2).1 (by decide)
    · exact .consequence (.append (.literal _) (address_determines interrupt_rip)) (fun _ _ h => h)
        fun a b ⟨⟨_, hvec⟩, _⟩ ⟨_, hrip⟩ => ⟨hvec, hrip⟩
    · refine .consequence (.literal _) (fun _ _ h => h) fun a b ⟨⟨hstart, hvec⟩, ha, hb⟩ _ => ⟨hvec, ?_⟩
      simp only [Bool.or_eq_true, bne_iff_ne, ne_eq, not_or, Bool.not_eq_true, not_not] at ha hb
      rw [ha.2, hb.2, (hstart.2 ha.1).1]
  unfold interruptLine
  refine .append (.append (.append (.append hvector hrip) (.literal _)) hcode) ?_
  exact .consequence (.literal _) (fun _ _ h => h) fun a b ⟨⟨hvec, hrip⟩, hcode⟩ _ => ⟨hvec, hrip, hcode⟩

theorem newLine_determines : Determines SameStartLine newLine SameNewLine := by
  refine .ite_shown ?_ ?_ ?_
  · intro a b s t _ _ h
    exact absurd (List.cons.inj h).1 (by decide)
  · refine .consequence (.literal _) (fun _ _ h => h) fun a b ⟨_, ha, hb⟩ _ =>
      ⟨ha.trans hb.symm, fun h => ?_⟩
    rw [h] at ha
    cases ha
  · have hemulation : Determines
        (fun a b => SameStartLine a b ∧ ¬ a.is_last_event = true ∧ ¬ b.is_last_event = true)
        (fun e => (if e.is_instruction_emulation then "emulated" else "to check").toList) fun a b =>
          (SameStartLine a b ∧ ¬ a.is_last_event = true ∧ ¬ b.is_last_event = true) ∧
            a.is_instruction_emulation = b.is_instruction_emulation := by
      refine .keep (.of_length ?_ ?_)
      · intro a b _
        split_ifs <;> rfl
      · intro a b _ h
        cases ha : a.is_instruction_emulation <;> cases hb : b.is_instruction_emulation <;>
          simp_all
    refine .append (.append (.append (.literal _) hemulation) (.literal _)) ?_
    intro a b s t ⟨⟨⟨hunknown, hstart⟩, ha, hb⟩, hemul⟩ h
    rw [List.append_assoc, List.append_assoc] at h
    obtain ⟨hrows, hst⟩ := contextRegisters_proper.select_inj (by decide) h
    rw [Bool.not_eq_true] at ha hb
    refine ⟨⟨ha.trans hb.symm, fun _ => ⟨hemul, ?_⟩⟩, hst⟩
    -- A register that is not printed is the one of the start, which is known.
    refine Context.eq_of_registers fun r hr => ?_
    obtain ⟨hdisplays, hget⟩ := hrows r hr
    cases hd : a.displays r with
    | true => exact hget hd
    | false =>
      have hdb : b.displays r = false := hdisplays ▸ hd
      simp only [displays, Bool.or_eq_false_iff, bne_eq_false_iff_eq] at hd hdb
      rw [hd.2, hdb.2, (hstart hd.1).2.2]

/-- The lines of the interrupt, if there is one, and of the second context. -/
theorem endLines_determines : Determines SameStartLine
    (fun e => (if e.has_interrupt then e.interruptLine else []) ++ e.newLine) fun a b =>
      a.has_interrupt = b.has_interrupt ∧ (a.has_interrupt = true → SameInterruptLine a b) ∧ SameNewLine a b := by
  have hbranch : (fun e : SyncEvent => (if e.has_interrupt then e.interruptLine else []) ++ e.newLine) =
      fun e => if e.has_interrupt then e.interruptLine ++ e.newLine else e.newLine := by
    funext e
    split_ifs <;> rfl
  rw [hbranch]
  refine .ite_shown ?_ ?_ ?_
  · -- Only the line of an interrupt begins with `In`.
    intro a b s t _ _ h
    unfold interruptLine newLine at h
    split_ifs at h
    all_goals exact absurd (List.cons.inj (List.cons.inj h).2).1 (by decide)
  · have hlines : Determines SameStartLine (fun e => e.interruptLine ++ e.newLine)
        fun a b => SameInterruptLine a b ∧ SameNewLine a b := by
      refine .append (.keep interruptLine_determines) ?_
      exact .consequence newLine_determines (fun _ _ h => h.1) fun a b ⟨_, hinterrupt⟩ hnew =>
        ⟨hinterrupt, hnew⟩
    exact .consequence hlines (fun _ _ h => h.1) fun a b ⟨_, ha, hb⟩ ⟨hinterrupt, hnew⟩ =>
      ⟨ha.trans hb.symm, fun _ => hinterrupt, hnew⟩
  · refine .consequence newLine_determines (fun _ _ h => h.1) fun a b ⟨_, ha, hb⟩ hnew => ?_
    rw [Bool.not_eq_true] at ha hb
    exact ⟨ha.trans hb.symm, fun h => absurd (ha.symm.trans h) (by decide), hnew⟩

/-- The text of an event, whatever follows it, tells what is shown of the event. -/
theorem text_determines : Determines (fun _ _ => True) text fun a b => a.shown = b.shown := by
  refine .ite_shown ?_ ?_ ?_
  · intro a b s t _ _ h
    unfold reasonLine at h
    exact absurd (List.cons.inj h).1 (by decide)
  · have hlines : Determines (fun _ _ => True) (fun e => e.reasonLine ++ e.startLine ++
        ((if e.has_interrupt then e.interruptLine else []) ++ e.newLine)) fun a b =>
          (SameReasonLine a b ∧ SameStartLine a b) ∧ a.has_interrupt = b.has_interrupt ∧
            (a.has_interrupt = true → SameInterruptLine a b) ∧ SameNewLine a b := by
      have hstart : Determines SameReasonLine startLine fun a b => SameReasonLine a b ∧ SameStartLine a b :=
        .consequence startLine_determines (fun _ _ _ => trivial) fun _ _ h h' => ⟨h, h'⟩
      refine .append (.append reasonLine_determines hstart) ?_
      exact .consequence endLines_determines (fun _ _ h => h.2) fun _ _ h h' => ⟨h, h'⟩
    refine .consequence hlines (fun _ _ _ => trivial) fun a b ⟨_, ha, hb⟩
      ⟨⟨⟨hposition, hreason⟩, hunknown, hstart⟩, hhas, hinterrupt, hlast, hnew⟩ => ?_
    rw [shown, shown, if_pos ha, if_pos hb]
    simp only [SyncEvent.mk.injEq, ha, hb, ← hunknown, ← hhas, ← hlast, hposition, hreason]
    unfold SameInterruptLine at hinterrupt
    cases hu : a.is_first_event_context_unknown <;> cases hh : a.has_interrupt <;>
      cases hl : a.is_last_event <;> simp_all
  · refine .consequence (.literal _) (fun _ _ h => h) fun a b ⟨_, ha, hb⟩ _ => ?_
    rw [shown, shown, if_neg ha, if_neg hb]

theorem listing_startRegisters {a b : SyncEvent} (hrflags : a.rflags = b.rflags)
    (hstart : a.start_context = b.start_context) :
    listing startRegisters a = listing startRegisters b := by
  simp only [listing, startRegisters, List.map_cons, List.map_map, Row.entry, hrflags]
  refine congrArg _ (List.map_congr_left fun r _ => ?_)
  simp only [Function.comp, hstart]

/-- Nothing else of the event is looked at. -/
theorem text_shown (e : SyncEvent) : e.shown.text = e.text := by
  unfold text
  cases hv : e.is_valid with
  | false => simp [shown, hv]
  | true =>
    have hvalid : e.shown.is_valid = true := by simp [shown, hv]
    have hreason : e.shown.reasonLine = e.reasonLine := by
      have hposition : e.shown.position = e.position := by simp [shown, hv]
      have hcode : e.shown.start_reason = e.start_reason.shown := by simp [shown, hv]
      unfold reasonLine
      rw [hposition, hcode, syncPointTypeToString_shown]
    have hstart : e.shown.startLine = e.startLine := by
      unfold startLine
      cases hu : e.is_first_event_context_unknown with
      | true => simp [shown, hv, hu]
      | false =>
        rw [listing_startRegisters (b := e) (by simp [shown, hv, hu]) (by simp [shown, hv, hu])]
        simp [shown, hv, hu]
    have hinterrupt : (if e.shown.has_interrupt then e.shown.interruptLine else []) =
        if e.has_interrupt then e.interruptLine else [] := by
      unfold interruptLine
      cases hh : e.has_interrupt <;> cases hu : e.is_first_event_context_unknown <;>
        simp [shown, hv, hh, hu]
    have hnew : e.shown.newLine = e.newLine := by
      unfold newLine
      cases hl : e.is_last_event with
      | true => simp [shown, hv, hl]
      | false =>
        have hdisplays : e.shown.displays = e.displays := by
          funext r
          cases hu : e.is_first_event_context_unknown <;> simp [displays, shown, hv, hu, hl]
        rw [hdisplays]
        simp [shown, hv, hl]
    rw [if_pos hvalid, if_pos rfl, hreason, hstart, hinterrupt, hnew]

/-- Two events have the same text exactly when what is shown of them is the same. -/
theorem text_inj {a b : SyncEvent} : a.text = b.text ↔ a.shown = b.shown := by
  constructor
  · exact text_determines.of_eq trivial
  · intro h
    rw [← text_shown a, h, text_shown]

/-- A decimal stream prints two events in the same way exactly when what is shown of them is the same. -/
theorem printed_inj (t : List Char) (fill : Char) (a b : SyncEvent) :
    ((Ostream.mk t .dec false fill 0).syncEvent a).text =
      ((Ostream.mk t .dec false fill 0).syncEvent b).text ↔ a.shown = b.shown := by
  obtain ⟨fill', ha⟩ := Ostream.syncEvent_eq t a fill
  obtain ⟨fill'', hb⟩ := Ostream.syncEvent_eq t b fill
  rw [ha, hb, ← text_inj]
  exact List.append_right_inj t

end SyncEvent

end RvnSyncPoint
