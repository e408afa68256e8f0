import RvnSyncPoint.Hardware.AccessText
import RvnSyncPoint.Hardware.Dump
import RvnSyncPoint.Hardware.Reorder

/-!
# The output of `dump_hardware`

The text that `dump_hardware` writes to its output, a line for each access or the bytes of one. From the
text of a file one can tell how many accesses the file has, and what each of them looks like, and no more
(`dumpHardware_text_inj`). Of a file that `reorder_hardware` has written the lines are those of the source
in a stable order, so the text is the one of the source exactly when the source was in order
(`dumpHardware_reordered`).
-/

namespace RvnSyncPoint

open LittleEndian StreamableFile HardwareFile Printing

/-- `std::cout << access << std::endl`, or the bytes of the data. -/
def Ostream.dumped : Dumped → Ostream → Ostream
  | .line access, out => out |>.hardwareAccess access |>.endl
  | .binary data, out => out.write data

/-- What `main()` writes to the standard output, which is a new stream. -/
def dumpHardwareText (opened : Bool) (memory : HardwareAccess) (source : Option (List UInt8))
    (arg : Option (Bool × UInt64)) : Option (Except RuntimeError (List Char)) :=
  (dumpHardware opened memory source arg).map fun result =>
    result.map fun dumped => (dumped.foldl (fun out d => Ostream.dumped d out) {}).text

section

variable {version : UInt32} {as bs : List HardwareAccess} {opened : Bool} {memory : HardwareAccess}
  {source : Option (List UInt8)} {f g : HardwareFile}

/-! ## The lines -/

/-- The lines of the accesses. -/
def accessLines (as : List HardwareAccess) : List Char := as.flatMap fun a => a.line ++ ['\n']

/-- The state that a line leaves does not matter to the next one. -/
theorem foldl_lines_text (as : List HardwareAccess) (t : List Char) (base : Base) (showbase : Bool)
    (fill : Char) : ((as.map .line).foldl (fun out d => Ostream.dumped d out)
      (Ostream.mk t base showbase fill 0)).text = t ++ accessLines as := by
  induction as generalizing t base showbase fill with
  | nil => simp [accessLines]
  | cons a as ih =>
    have hline : (Ostream.mk t base showbase fill 0).dumped (.line a) =
        ⟨t ++ (a.line ++ ['\n']), .dec, true, '0', 0⟩ := by
      rw [Ostream.dumped, Ostream.hardwareAccess_eq, Ostream.endl_mk, List.append_assoc]
    rw [List.map_cons, List.foldl_cons, hline, ih, List.append_assoc]
    simp [accessLines]

/-- The lines tell of each access what it looks like. -/
theorem accessLines_inj : accessLines as = accessLines bs ↔ List.Forall₂ HardwareAccess.LooksLike as bs := by
  constructor
  · exact HardwareAccess.line_determines.flatMap_eq (by simp) as bs fun _ _ _ _ => trivial
  · intro h
    induction h with
    | nil => rfl
    | cons hab _ ih =>
      rw [accessLines, accessLines, List.flatMap_cons, List.flatMap_cons, HardwareAccess.line_inj.mpr hab]
      exact congrArg _ ih

/-- The text of a source that is scanned. -/
theorem dumpHardwareText_scan {b : Bool}
    (hload : (HardwareFile.new opened memory).load source = .returned b f) (hscan : Scan f as g) :
    dumpHardwareText opened memory source none = some (.ok (accessLines as)) := by
  have hdump : dumpHardware opened memory source none = some (.ok (as.map .line)) := by
    simp [dumpHardware, hload, hscan.accesses_eq]
  rw [dumpHardwareText, hdump, Option.map_some]
  have htext := foldl_lines_text as [] .dec false ' '
  rw [List.nil_append] at htext
  exact congrArg (fun t => some (Except.ok t)) htext

/-- The text of written accesses. -/
theorem dumpHardwareText_fileOf (has : ∀ a ∈ as, a.Recorded) :
    dumpHardwareText opened memory (some (fileOf version as)) none = some (.ok (accessLines as)) := by
  obtain ⟨g, hscan⟩ := scan_encodeAll version (.new opened memory) has
  exact dumpHardwareText_scan (load_header version (encodeAll as) (.new opened memory)) hscan

/-- The text of one access in binary, or of none. -/
theorem dumpHardwareText_binary (has : ∀ a ∈ as, a.Recorded) (hlen : (fileOf version as).length < 2 ^ 63)
    (num : UInt64) : dumpHardwareText opened memory (some (fileOf version as)) (some (true, num)) =
      some (.ok ((as[num.toNat + 1]?.elim [] HardwareAccess.data).map Char.ofUInt8)) := by
  rw [dumpHardwareText, dumpHardware_index has hlen]
  cases as[num.toNat + 1]? with
  | none => rfl
  | some a => simp [shown, Ostream.dumped, Ostream.write, Except.map]

/-! ## What the output tells -/

/-- Two files of written accesses have the same text exactly when they have equally many accesses, of which
each looks like the one in its place; and in binary, with an index, exactly when the data of the accesses
that the index selects is the same, down to the last byte. -/
theorem dumpHardware_text_inj (version version' : UInt32) (as bs : List HardwareAccess)
    (opened opened' : Bool) (memory memory' : HardwareAccess) (has : ∀ a ∈ as, a.Recorded)
    (hbs : ∀ b ∈ bs, b.Recorded) (hlen : (fileOf version as).length < 2 ^ 63)
    (hlen' : (fileOf version' bs).length < 2 ^ 63) :
    (dumpHardwareText opened memory (some (fileOf version as)) none =
        dumpHardwareText opened' memory' (some (fileOf version' bs)) none ↔
      List.Forall₂ HardwareAccess.LooksLike as bs) ∧
    ∀ num : UInt64, dumpHardwareText opened memory (some (fileOf version as)) (some (true, num)) =
        dumpHardwareText opened' memory' (some (fileOf version' bs)) (some (true, num)) ↔
      as[num.toNat + 1]?.elim [] HardwareAccess.data = bs[num.toNat + 1]?.elim [] HardwareAccess.data := by
  constructor
  · rw [dumpHardwareText_fileOf has, dumpHardwareText_fileOf hbs, Option.some_inj, Except.ok.injEq]
    exact accessLines_inj
  · intro num
    rw [dumpHardwareText_binary has hlen, dumpHardwareText_binary hbs hlen', Option.some_inj,
      Except.ok.injEq]
    exact (List.map_injective_iff.mpr ofUInt8_injective).eq_iff

/-- A write of the byte `ff` has the text of a write of the two bytes of `00ff`. -/
theorem dumpHardware_text_inj_padded :
    dumpHardwareText false (oneByteWrite 0) (some (fileOf 0 [oneByteWrite 256])) none =
      dumpHardwareText true (oneByteWrite 0)
        (some (fileOf 1 [{ oneByteWrite 256 with data := [0xff, 0] }])) none := by
  refine (dumpHardware_text_inj 0 1 [oneByteWrite 256] [{ oneByteWrite 256 with data := [0xff, 0] }] false
    true (oneByteWrite 0) (oneByteWrite 0) (by decide) (by decide) (by decide) (by decide)).1.mpr ?_
  refine .cons ⟨⟨rfl, rfl, rfl, rfl⟩, .inr (.inr (.inl ⟨rfl, by decide, 0xff, rfl, by decide⟩))⟩ .nil

/-- What `reorder_hardware` and `dump_hardware` do to a source that loads: the lines of the sorted file are
those of the accesses of the source in a stable order, and the sort leaves the text as it was exactly when
the source was in order. -/
theorem dumpHardware_reordered (opened opened' : Bool) (memory memory' : HardwareAccess)
    (source : Option (List UInt8)) (b : Bool) (file : HardwareFile)
    (hload : (HardwareFile.new opened memory).load source = .returned b file) :
    ∃ as bs dest, file.accesses = some as ∧ StableSort HardwareAccess.tsc as bs ∧
      reorderHardware opened memory source = some (.written dest) ∧
      dumpHardwareText opened memory source none = some (.ok (accessLines as)) ∧
      dumpHardwareText opened' memory' (some dest) none = some (.ok (accessLines bs)) ∧
      (accessLines bs = accessLines as ↔ as.Pairwise fun a b => a.tsc ≤ b.tsc) := by
  obtain ⟨c, hhealthy⟩ := load_healthy hload
  obtain ⟨as, g, hscan⟩ := exists_scan file hhealthy
  have hsort := Multimap.stableSort_values HardwareAccess.tsc as
  refine ⟨as, (byTsc as).values, _, hscan.accesses_eq, hsort, reorderHardware_scan hload hscan,
    dumpHardwareText_scan hload hscan, dumpHardwareText_fileOf (valid_byTsc hscan.valid), ?_⟩
  constructor
  · -- The timestamps can be read from the lines.
    intro h
    have htsc : (byTsc as).values.map HardwareAccess.tsc = as.map HardwareAccess.tsc := by
      refine List.forall₂_eq_eq_eq ▸ ?_
      rw [List.forall₂_map_left_iff, List.forall₂_map_right_iff]
      exact (accessLines_inj.mp h).imp fun _ _ hab => hab.tsc
    have hsorted : ((byTsc as).values.map HardwareAccess.tsc).Pairwise (· ≤ ·) :=
      List.pairwise_map.mpr hsort.sorted
    rw [htsc] at hsorted
    exact List.pairwise_map.mp hsorted
  · intro h
    rw [byTsc, Multimap.values_ofKeys_of_sorted h]

/-- The text of two writes of which the later one comes first is changed. -/
theorem dumpHardware_reordered_two : ∃ as bs dest,
    reorderHardware false (oneByteWrite 0)
        (some (fileOf 0 [oneByteWrite 512, oneByteWrite 256])) = some (.written dest) ∧
      dumpHardwareText false (oneByteWrite 0)
        (some (fileOf 0 [oneByteWrite 512, oneByteWrite 256])) none = some (.ok (accessLines as)) ∧
      dumpHardwareText true (oneByteWrite 0) (some dest) none = some (.ok (accessLines bs)) ∧
      accessLines bs ≠ accessLines as := by
  obtain ⟨as, bs, dest, haccesses, -, hdest, has, hbs, hiff⟩ := dumpHardware_reordered false true
    (oneByteWrite 0) (oneByteWrite 0) (some (fileOf 0 [oneByteWrite 512, oneByteWrite 256])) true _
    (load_header 0 (encodeAll [oneByteWrite 512, oneByteWrite 256]) _)
  refine ⟨as, bs, dest, hdest, has, hbs, fun heq => ?_⟩
  obtain ⟨g, hscan⟩ := scan_encodeAll 0 (.new false (oneByteWrite 0))
    (show ∀ a ∈ [oneByteWrite 512, oneByteWrite 256], a.Recorded by decide)
  rw [hscan.accesses_eq] at haccesses
  cases haccesses
  exact absurd (hiff.mp heq) (by decide)

end

end RvnSyncPoint
