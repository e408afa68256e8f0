import RvnSyncPoint.Ostream
import RvnSyncPoint.RuntimeError

/-!
# The texts of the exceptions

Of an exception, a caller of the readers sees nothing but its text. The texts begin with one of nine
openings, none of which begins another one, and the numbers that follow can be read back. So no two
exceptions have the same text (`RuntimeError.what_injective`): it tells what was wrong, and names the
number found in the file or the position of the malformed event.
-/

namespace RvnSyncPoint

open Printing

theorem toList_showHex (n : ℕ) : (showHex n).toList = numeral .hex true n := by
  unfold showHex
  split_ifs with h
  · rw [h]
    rfl
  · simp only [String.toList_append, String.toList_ofList, numeral_showbase h]
    rfl

theorem toList_toString (n : ℕ) : (toString n).toList = Nat.toDigits 10 n := by
  rw [Nat.toString_eq_repr, Nat.repr, String.toList_ofList]

namespace RuntimeError

/-- What the text begins with, up to the first number. -/
def opening : RuntimeError → String
  | .magic _ _ => "Magic number should be "
  | .dataMagic _ _ => "Magic number for the data file should be "
  | .version _ _ => "This version number is not handled: "
  | .duplicatedInterrupt _ =>
    "Malformed scenario: context should be identical for duplicated interrupt at $"
  | .interruptContext _ => "Malformed scenario: context should be identical at $"
  | .vmexitWithoutVmenter _ => "Malformed scenario: VMExit without a VMEnter at $"
  | .emulationWithImmediateInterrupt =>
    "Instruction emulation but immediate interrupt combined: not handled"
  | .cr2ChangeWithoutPageFault => "CR2 change with non page-fault interrupt: not supported"
  | .faultThatShouldWait => "CPU Fault that should wait doesn't make sense"

/-- The numbers, and what is between them. -/
def numbers : RuntimeError → List Char
  | .magic expected actual | .dataMagic expected actual =>
    numeral .hex true expected ++ " but is actually ".toList ++ numeral .hex true actual
  | .version expected actual =>
    Nat.toDigits 10 actual ++ ", expecting version ".toList ++ Nat.toDigits 10 expected
  | .duplicatedInterrupt position | .interruptContext position | .vmexitWithoutVmenter position =>
    Nat.toDigits 10 position
  | .emulationWithImmediateInterrupt | .cr2ChangeWithoutPageFault | .faultThatShouldWait => []

/-- All the openings. -/
def openings : List String := [
  (magic 0 0).opening, (dataMagic 0 0).opening, (version 0 0).opening, (duplicatedInterrupt 0).opening,
  (interruptContext 0).opening, (vmexitWithoutVmenter 0).opening,
  emulationWithImmediateInterrupt.opening, cr2ChangeWithoutPageFault.opening,
  faultThatShouldWait.opening]

theorem openings_prefixFree : ∀ u ∈ openings, ∀ v ∈ openings, u.toList <+: v.toList → u = v := by
  decide

theorem opening_mem (e : RuntimeError) : e.opening ∈ openings := by
  unfold openings
  cases e <;> simp [opening]

-- The texts are variables here, so that no step looks into a literal.
theorem toList_hexes (u v : String) (m n : ℕ) : (u ++ showHex m ++ v ++ showHex n).toList =
    u.toList ++ (numeral .hex true m ++ v.toList ++ numeral .hex true n) := by
  simp only [String.toList_append, toList_showHex, List.append_assoc]

theorem toList_decimals (u v : String) (m n : ℕ) : (u ++ toString m ++ v ++ toString n).toList =
    u.toList ++ (Nat.toDigits 10 m ++ v.toList ++ Nat.toDigits 10 n) := by
  simp only [String.toList_append, toList_toString, List.append_assoc]

theorem toList_decimal (u : String) (n : ℕ) :
    (u ++ toString n).toList = u.toList ++ Nat.toDigits 10 n := by
  simp only [String.toList_append, toList_toString]

theorem toList_what (e : RuntimeError) : e.what.toList = e.opening.toList ++ e.numbers := by
  cases e with
  | magic expected actual => exact toList_hexes _ _ expected actual
  | dataMagic expected actual => exact toList_hexes _ _ expected actual
  | version expected actual => exact toList_decimals _ _ actual expected
  | duplicatedInterrupt position => exact toList_decimal _ position
  | interruptContext position => exact toList_decimal _ position
  | vmexitWithoutVmenter position => exact toList_decimal _ position
  | emulationWithImmediateInterrupt => exact (List.append_nil _).symm
  | cr2ChangeWithoutPageFault => exact (List.append_nil _).symm
  | faultThatShouldWait => exact (List.append_nil _).symm

variable {e e' : RuntimeError}

/-- The numbers of a magic number that is not the expected one. -/
theorem magics_inj {m n m' n' : ℕ}
    (h : numeral .hex true m ++ " but is actually ".toList ++ numeral .hex true n =
      numeral .hex true m' ++ " but is actually ".toList ++ numeral .hex true n') :
    m = m' ∧ n = n' := by
  have hblank := not_mem_numeral_showbase (c := ' ') (by decide) (by decide)
  have htext : " but is actually ".toList = ' ' :: "but is actually ".toList := by decide
  rw [htext, List.append_assoc, List.append_assoc, List.cons_append, List.cons_append] at h
  obtain ⟨hm, hrest⟩ := append_cons_inj (hblank m) (hblank m') h
  exact ⟨numeral_injective hm, numeral_injective (List.append_cancel_left hrest)⟩

/-- The numbers of a version that is not handled. -/
theorem versions_inj {m n m' n' : ℕ}
    (h : Nat.toDigits 10 m ++ ", expecting version ".toList ++ Nat.toDigits 10 n =
      Nat.toDigits 10 m' ++ ", expecting version ".toList ++ Nat.toDigits 10 n') :
    m = m' ∧ n = n' := by
  have hdigits := toDigits_injective (b := 10) (by norm_num) (by norm_num)
  have hcomma := not_mem_numeral (b := 10) (x := ',') (by norm_num) (by norm_num) (by decide)
  have htext : ", expecting version ".toList = ',' :: " expecting version ".toList := by decide
  rw [htext, List.append_assoc, List.append_assoc, List.cons_append, List.cons_append] at h
  obtain ⟨hm, hrest⟩ := append_cons_inj (hcomma m) (hcomma m') h
  exact ⟨hdigits hm, hdigits (List.append_cancel_left hrest)⟩

/-- The opening and the numbers tell the exception. -/
theorem eq_of_parts (hopening : e.opening = e'.opening) (hnumbers : e.numbers = e'.numbers) :
    e = e' := by
  have hdigits := toDigits_injective (b := 10) (by norm_num) (by norm_num)
  -- Two exceptions with the same opening are made by the same constructor.
  cases e <;> cases e' <;> simp only [opening, String.reduceEq] at hopening
  case magic.magic =>
    obtain ⟨rfl, rfl⟩ := magics_inj hnumbers
    rfl
  case dataMagic.dataMagic =>
    obtain ⟨rfl, rfl⟩ := magics_inj hnumbers
    rfl
  case version.version =>
    obtain ⟨rfl, rfl⟩ := versions_inj hnumbers
    rfl
  case duplicatedInterrupt.duplicatedInterrupt => rw [hdigits hnumbers]
  case interruptContext.interruptContext => rw [hdigits hnumbers]
  case vmexitWithoutVmenter.vmexitWithoutVmenter => rw [hdigits hnumbers]
  all_goals rfl

/-- Two exceptions with the same text are the same. -/
theorem what_injective : Function.Injective what := by
  intro e e' h
  have htext := congrArg String.toList h
  rw [toList_what, toList_what] at htext
  -- One opening begins the other one.
  have hprefix : e'.opening.toList <+: e.opening.toList ++ e.numbers := htext ▸ List.prefix_append _ _
  have hopening : e.opening = e'.opening := by
    rcases List.prefix_or_prefix_of_prefix (List.prefix_append e.opening.toList e.numbers) hprefix with
      hle | hle
    · exact openings_prefixFree _ e.opening_mem _ e'.opening_mem hle
    · exact (openings_prefixFree _ e'.opening_mem _ e.opening_mem hle).symm
  rw [hopening] at htext
  exact eq_of_parts hopening (List.append_cancel_left htext)

end RuntimeError

end RvnSyncPoint
