import RvnSyncPoint.Hardware.Iterate

/-!
# `dump_hardware`

The program that prints a hardware file (`bin/dump_hardware/dump_hardware.cpp`): all its accesses, or the
one with a given index. Its selection loop tests the index after it has read an access, and the program
reads one access more after the loop, so that it selects the access after the one with the index
(`Scan.select_eq`). The two modes agree on an index that is beyond the last access, or whose access is
repeated (`selectsDumped_iff`).
-/

namespace RvnSyncPoint

open Loop StreamableFile HardwareFile

/-- What the program writes for an access. -/
inductive Dumped where
  /-- The access, as its `operator<<` prints it. -/
  | line (access : HardwareAccess)
  /-- The bytes of its data. -/
  | binary (data : List UInt8)
deriving DecidableEq

/-- The display that the argument asks for. -/
def shown (binary_display : Bool) (access : HardwareAccess) : Dumped :=
  if binary_display then .binary access.data else .line access

/-- One pass of the loop `while (file.next().valid() && num > 0) --num`. -/
def selectPass : UInt64 × HardwareFile → Option (UInt64 × HardwareFile ⊕ HardwareFile)
  | (num, file) =>
    let file := file.next
    some (if file.current.valid ∧ 0 < num then .inl (num - 1, file) else .inr file)

/-- The access that the index selects: the one read after the loop, if there is one. -/
def HardwareFile.select (num : UInt64) (file : HardwareFile) : Option (Option HardwareAccess) := do
  let file ← loop selectPass (num, file)
  let file := file.next
  return if file.current.valid then some file.current else none

/-- `main()` with a file, and with the second argument that was given: whether it begins with `@`, and
the number. The reader begins with what `opened` and `memory` hold. -/
def dumpHardware (opened : Bool) (memory : HardwareAccess) (source : Option (List UInt8))
    (arg : Option (Bool × UInt64)) : Option (Except RuntimeError (List Dumped)) := do
  match (HardwareFile.new opened memory).load source with
  | .thrown err _ => return .error err
  -- What `load` returns is not looked at: a file that is not open has no accesses.
  | .returned _ file =>
    match arg with
    | none => return .ok ((← file.accesses).map .line)
    | some (binary_display, num) => return .ok ((← file.select num).toList.map (shown binary_display))

section

variable {version : UInt32} {as : List HardwareAccess} {f g : HardwareFile}

/-! ## The access that is selected -/

/-- A scan ends in the state after one call more than there are accesses. -/
theorem HardwareFile.Scan.iterate_eq (h : Scan f as g) : g = HardwareFile.next^[as.length + 1] f := by
  induction h with
  | stop h => rfl
  | @step f g as h rest ih =>
    rw [List.length_cons, Function.iterate_succ_apply]
    exact ih

/-- The index selects the access after the one that it is the index of. -/
theorem HardwareFile.Scan.select_eq (h : Scan f as g) (hend : g.file.eof = true) (num : UInt64) :
    f.select num = some as[num.toNat + 1]? := by
  induction h generalizing num with
  | @stop f h =>
    -- There is no access, and none after the end.
    have hleave : loop selectPass (num, f) = some f.next :=
      loop_leave (by simp [selectPass, h])
    have hnext : f.next.next.current.valid = false := by
      rw [next_eof hend]
      rfl
    simp [select, hleave, hnext]
  | @step f g as h rest ih =>
    by_cases hnum : 0 < num
    · -- The loop goes on after the first access.
      have hagain : loop selectPass (num, f) = loop selectPass (num - 1, f.next) :=
        loop_again (by simp [selectPass, h, hnum])
      have hselect : f.select num = f.next.select (num - 1) := by rw [select, hagain, select]
      have hpred : (num - 1).toNat + 1 = num.toNat := by
        have hpos : 0 < num.toNat := UInt64.lt_iff_toNat_lt.mp hnum
        have hone : (1 : UInt64) ≤ num := UInt64.le_iff_toNat_le.mpr hpos
        rw [UInt64.toNat_sub_of_le _ _ hone]
        exact Nat.sub_add_cancel hpos
      rw [hselect, ih hend, hpred, List.getElem?_cons_succ]
    · -- The loop ends after the first access, and the second one is selected.
      have hzero : num = 0 := by
        have hle : num ≤ 0 := UInt64.not_lt.mp hnum
        exact UInt64.le_zero_iff.mp hle
      subst hzero
      have hleave : loop selectPass (0, f) = some f.next := loop_leave (by simp [selectPass])
      rw [select, hleave, Option.bind_eq_bind, Option.bind_some, UInt64.toNat_zero,
        List.getElem?_cons_succ]
      cases rest with
      | stop hstop => simp [hstop]
      | step hstep _ => simp [hstep]

/-! ## The two modes -/

/-- A file of written accesses is scanned to its end. -/
theorem HardwareFile.scan_fileOf (f : HardwareFile) (has : ∀ a ∈ as, a.Recorded)
    (hlen : (fileOf version as).length < 2 ^ 63) :
    ∃ g, Scan (f.loaded (fileOf version as)) as g ∧ g.file.eof = true := by
  obtain ⟨g, hscan⟩ := scan_encodeAll version f has
  rw [← fileOf] at hscan
  refine ⟨g, hscan, ?_⟩
  rw [hscan.iterate_eq]
  exact (AtEnd.iterate f has hlen (Nat.lt_succ_self _)).eof

variable {opened : Bool} {memory : HardwareAccess}

/-- Without an index the program writes all the accesses. -/
theorem dumpHardware_all (has : ∀ a ∈ as, a.Recorded) (hlen : (fileOf version as).length < 2 ^ 63) :
    dumpHardware opened memory (some (fileOf version as)) none = some (.ok (as.map .line)) := by
  obtain ⟨g, hscan, -⟩ := scan_fileOf (.new opened memory) has hlen
  have hload := load_header version (encodeAll as) (.new opened memory)
  rw [← fileOf] at hload
  simp [dumpHardware, hload, hscan.accesses_eq]

/-- With an index it writes the access after the one that it is the index of. -/
theorem dumpHardware_index (has : ∀ a ∈ as, a.Recorded)
    (hlen : (fileOf version as).length < 2 ^ 63) (binary_display : Bool) (num : UInt64) :
    dumpHardware opened memory (some (fileOf version as)) (some (binary_display, num)) =
      some (.ok (as[num.toNat + 1]?.toList.map (shown binary_display))) := by
  obtain ⟨g, hscan, hend⟩ := scan_fileOf (.new opened memory) has hlen
  have hload := load_header version (encodeAll as) (.new opened memory)
  rw [← fileOf] at hload
  simp [dumpHardware, hload, hscan.select_eq hend]

/-- With the index the program writes the access that it writes in this place without an index, and
nothing if there is none. -/
def SelectsDumped (opened : Bool) (memory : HardwareAccess) (source : Option (List UInt8))
    (num : UInt64) : Prop :=
  ∃ as : List HardwareAccess,
    dumpHardware opened memory source none = some (.ok (as.map .line)) ∧
    ∀ binary_display, dumpHardware opened memory source (some (binary_display, num)) =
      some (.ok (as[num.toNat]?.toList.map (shown binary_display)))

theorem map_line_injective : Function.Injective (List.map Dumped.line) :=
  List.map_injective_iff.mpr fun _ _ h => Dumped.line.inj h

/-- What is selected is right exactly when two accesses in a row are the same, or missing. -/
theorem selectsDumped_iff_getElem? (has : ∀ a ∈ as, a.Recorded)
    (hlen : (fileOf version as).length < 2 ^ 63) (num : UInt64) :
    SelectsDumped opened memory (some (fileOf version as)) num ↔
      as[num.toNat + 1]? = as[num.toNat]? := by
  constructor
  · rintro ⟨bs, hall, hindex⟩
    rw [dumpHardware_all has hlen] at hall
    have hbs : as = bs := map_line_injective (Except.ok.inj (Option.some.inj hall))
    subst hbs
    have hline := hindex false
    rw [dumpHardware_index has hlen] at hline
    have hmap := map_line_injective (Except.ok.inj (Option.some.inj hline))
    simpa using congrArg List.head? hmap
  · intro h
    refine ⟨as, dumpHardware_all has hlen, fun binary_display => ?_⟩
    rw [dumpHardware_index has hlen, h]

/-- An access is selected by some index exactly when it is not only the first one. -/
theorem exists_selects_iff (has : ∀ a ∈ as, a.Recorded) (hlen : (fileOf version as).length < 2 ^ 63)
    (a : HardwareAccess) :
    (∃ num, dumpHardware opened memory (some (fileOf version as)) (some (false, num)) =
      some (.ok [.line a])) ↔ a ∈ as.tail := by
  have hselects (num : UInt64) : dumpHardware opened memory (some (fileOf version as))
      (some (false, num)) = some (.ok [.line a]) ↔ as[num.toNat + 1]? = some a := by
    rw [dumpHardware_index has hlen]
    cases as[num.toNat + 1]? <;> simp [shown]
  simp only [hselects, ← List.getElem?_tail]
  constructor
  · rintro ⟨num, h⟩
    exact List.mem_of_getElem? h
  · intro h
    obtain ⟨i, hi⟩ := List.mem_iff_getElem?.mp h
    -- There are fewer accesses than numbers that the argument can be.
    obtain ⟨hlt, -⟩ := List.getElem?_eq_some_iff.mp hi
    have hcount := length_le_encodeAll as
    rw [length_fileOf] at hlen
    rw [List.length_tail] at hlt
    refine ⟨.ofNat i, ?_⟩
    rwa [UInt64.toNat_ofNat_of_lt' (show i < 2 ^ 64 by omega)]

/-- On every file of written accesses, an index selects the access that the full dump prints in its place
exactly when it is beyond the last one, or the access is the same as the next one; and every access can
be selected exactly when the first one occurs again. -/
theorem selectsDumped_iff (version : UInt32) (as : List HardwareAccess) (opened : Bool)
    (memory : HardwareAccess) (has : ∀ a ∈ as, a.Recorded)
    (hlen : (fileOf version as).length < 2 ^ 63) :
    (∀ num : UInt64, SelectsDumped opened memory (some (fileOf version as)) num ↔
      as.length ≤ num.toNat ∨
        ∃ h : num.toNat + 1 < as.length, as[num.toNat + 1] = as[num.toNat]) ∧
    ((∀ a ∈ as, ∃ num, dumpHardware opened memory (some (fileOf version as)) (some (false, num)) =
      some (.ok [.line a])) ↔ ∀ a, as.head? = some a → a ∈ as.tail) := by
  constructor
  · intro num
    rw [selectsDumped_iff_getElem? has hlen]
    rcases Nat.lt_or_ge num.toNat as.length with hlt | hge
    · rw [List.getElem?_eq_getElem hlt, List.getElem?_eq_some_iff]
      simp [Nat.not_le.mpr hlt]
    · rw [List.getElem?_eq_none hge, List.getElem?_eq_none (hge.trans (Nat.le_succ _))]
      simp [hge]
  · simp only [exists_selects_iff has hlen]
    cases as with
    | nil => simp
    | cons a as => simp

/-- An index beyond two writes selects nothing. -/
theorem selectsDumped_twoWrites : SelectsDumped false (oneByteWrite 0)
    (some (fileOf 0 [oneByteWrite 256, oneByteWrite 512])) 2 :=
  ((selectsDumped_iff 0 [oneByteWrite 256, oneByteWrite 512] false (oneByteWrite 0) (by decide)
    (by decide)).1 2).mpr (.inl (by decide))

/-- With the index `0` the second of them is selected. -/
theorem not_selectsDumped : ¬ ∀ (version : UInt32) (as : List HardwareAccess) (opened : Bool)
    (memory : HardwareAccess) (num : UInt64), (∀ a ∈ as, a.Recorded) →
      (fileOf version as).length < 2 ^ 63 →
        SelectsDumped opened memory (some (fileOf version as)) num := by
  intro halways
  have h := halways 0 [oneByteWrite 256, oneByteWrite 512] false (oneByteWrite 0) 0 (by decide)
    (by decide)
  rw [selectsDumped_iff_getElem? (by decide) (by decide)] at h
  exact absurd h (by decide)

end

end RvnSyncPoint
