import RvnSyncPoint.Multimap
import RvnSyncPoint.Hardware.File

/-!
# `reorder_hardware`

The program that sorts a hardware file (`bin/reorder_hardware/reorder_hardware.cpp`). It reads the
accesses of its source into a multimap, by timestamp, and writes them to its destination. On every
source that loads it ends, and its destination is read back as the stably sorted accesses
(`reorderHardware_scan`); to sort twice is to sort once, and of the accesses only the order between
different timestamps is lost (`reorderHardware_inj`).
-/

namespace RvnSyncPoint

open LittleEndian Loop StreamableFile HardwareFile

/-- How a run of the program ends. -/
inductive ReorderResult where
  /-- The destination is written. -/
  | written (dest : List UInt8)
  | thrown (err : RuntimeError)
  /-- The assertion that the timestamps do not decrease has failed. -/
  | aborted
deriving DecidableEq

/-- One pass of the read loop. -/
def reorderPass : Multimap UInt64 HardwareAccess × HardwareFile →
    Option (Multimap UInt64 HardwareAccess × HardwareFile ⊕
      Multimap UInt64 HardwareAccess × HardwareFile)
  | (accesses, file) =>
    let file := file.next
    some (if file.current.valid then .inl (accesses.insert (file.current.tsc, file.current), file)
      else .inr (accesses, file))

/-- The write loop, with the assertion that it makes. -/
def writeAccesses (current_tsc : UInt64) :
    List HardwareAccess → StreamableOutfile → Option StreamableOutfile
  | [], out => some out
  | access :: accesses, out =>
    if current_tsc ≤ access.tsc then
      writeAccesses access.tsc accesses (out.writeHardwareAccess access)
    else none

/-- `main()` with a source and a destination, which are different files. The reader begins with what
`opened` and `memory` hold. -/
def reorderHardware (opened : Bool) (memory : HardwareAccess) (source : Option (List UInt8)) :
    Option ReorderResult := do
  match (HardwareFile.new opened memory).load source with
  | .thrown err _ => return .thrown err
  -- What `load` returns is not looked at: a source that is not open has no accesses.
  | .returned _ file =>
    let out := StreamableOutfile.opened |>.writeUInt64 HARDWARE_FILE_MAGIC |>.writeUInt32 0
    let (accesses, _) ← loop reorderPass (.empty, file)
    match writeAccesses 0 accesses.values out with
    | some out => return .written out.written
    | none => return .aborted

/-- What a client reads of a file: `none` if it does not load. -/
def readBack (opened : Bool) (memory : HardwareAccess) (source : Option (List UInt8)) :
    Option (List HardwareAccess) :=
  match (HardwareFile.new opened memory).load source with
  | .returned true file => file.accesses
  | _ => none

section

variable {f g : HardwareFile} {as : List HardwareAccess} {opened : Bool} {memory : HardwareAccess}
  {source : Option (List UInt8)}

/-- The accesses of a list, by timestamp. -/
def byTsc (as : List HardwareAccess) : Multimap UInt64 HardwareAccess :=
  .ofKeys HardwareAccess.tsc as

/-- The read loop inserts the accesses of the scan. -/
theorem HardwareFile.Scan.reorder_eq (h : Scan f as g) (m : Multimap UInt64 HardwareAccess) :
    loop reorderPass (m, f) = some (m.insertAll HardwareAccess.tsc as, g) := by
  induction h generalizing m with
  | stop h => exact loop_leave (by simp [reorderPass, h, Multimap.insertAll])
  | @step f g as h rest ih =>
    rw [loop_again (t := (m.insert (f.next.current.tsc, f.next.current), f.next))
      (by simp [reorderPass, h]), ih]
    rfl

/-- Accesses in the order of their timestamps are written one after the other. -/
theorem writeAccesses_sorted (current_tsc : UInt64) (as : List HardwareAccess)
    (out : StreamableOutfile) (hfirst : ∀ a ∈ as, current_tsc ≤ a.tsc)
    (hsorted : as.Pairwise fun a b => a.tsc ≤ b.tsc) :
    writeAccesses current_tsc as out = some ⟨out.written ++ encodeAll as⟩ := by
  induction as generalizing current_tsc out with
  | nil => simp [writeAccesses, encodeAll]
  | cons a as ih =>
    obtain ⟨ha, has⟩ := List.pairwise_cons.mp hsorted
    rw [writeAccesses, if_pos (hfirst a List.mem_cons_self), ih _ _ ha has]
    simp [encodeAll]

/-- The destination holds the accesses of the scan, stably sorted. -/
theorem reorderHardware_scan {b : Bool}
    (hload : (HardwareFile.new opened memory).load source = .returned b f) (hscan : Scan f as g) :
    reorderHardware opened memory source =
      some (.written (header 0 ++ encodeAll (byTsc as).values)) := by
  have hloop : loop reorderPass (.empty, f) = some (byTsc as, g) := hscan.reorder_eq .empty
  have hwrite := writeAccesses_sorted 0 (byTsc as).values
    (StreamableOutfile.opened |>.writeUInt64 HARDWARE_FILE_MAGIC |>.writeUInt32 0)
    (fun a _ => UInt64.le_iff_toNat_le.mpr (Nat.zero_le _))
    (Multimap.stableSort_values HardwareAccess.tsc as).sorted
  unfold reorderHardware
  rw [hload]
  simp only [hloop, Option.bind_eq_bind, Option.bind_some, hwrite]
  simp [header, StreamableOutfile.opened]

/-- A file of written accesses is read back. -/
theorem readBack_encodeAll (version : UInt32) (has : ∀ a ∈ as, a.Recorded) :
    readBack opened memory (some (header version ++ encodeAll as)) = some as := by
  unfold readBack
  rw [load_header]
  obtain ⟨g, hscan⟩ := scan_encodeAll version (.new opened memory) has
  exact hscan.accesses_eq

/-- What `load` leaves can be scanned. -/
theorem load_healthy {b : Bool} (hload : f.load source = .returned b g) :
    ∃ c, Healthy c g.file := by
  by_cases hc : ∃ c, source = some c ∧ Accepted c
  · obtain ⟨c, rfl, hc⟩ := hc
    rw [load_accepted hc] at hload
    cases hload
    exact ⟨c, .inr ⟨12, rfl⟩⟩
  · rcases load_refused (fun c heq hacc => hc ⟨c, heq, hacc⟩) f with ⟨g', h, hclosed⟩ | ⟨err, g', h, -⟩
    · rw [h] at hload
      cases hload
      exact ⟨[], .inl hclosed.eof⟩
    · rw [h] at hload
      cases hload

/-- Sorting accesses does not make them invalid. -/
theorem valid_byTsc (h : ∀ a ∈ as, a.Recorded) :
    ∀ a ∈ (byTsc as).values, a.Recorded :=
  fun a ha => h a ((Multimap.stableSort_values HardwareAccess.tsc as).perm.mem_iff.mp ha)

/-- `reorder_hardware` on every source that loads. Its read loop ends, having read some accesses, which
are those of the source where the source is made of a header and written accesses; what is read back
from its destination are these accesses, stably sorted by timestamp; and reordering the destination
gives the same bytes again. -/
theorem reorderHardware_stable (opened : Bool) (memory : HardwareAccess)
    (source : Option (List UInt8)) (b : Bool) (file : HardwareFile)
    (hload : (HardwareFile.new opened memory).load source = .returned b file) :
    ∃ as dest, file.accesses = some as ∧
      (∀ version bs, (∀ a ∈ bs, a.Recorded) →
        source = some (header version ++ encodeAll bs) → as = bs) ∧
      reorderHardware opened memory source = some (.written dest) ∧
      ∀ opened' memory', (∃ bs, readBack opened' memory' (some dest) = some bs ∧
          StableSort HardwareAccess.tsc as bs) ∧
        reorderHardware opened' memory' (some dest) = some (.written dest) := by
  obtain ⟨c, hhealthy⟩ := load_healthy hload
  obtain ⟨as, g, hscan⟩ := exists_scan file hhealthy
  have hsort := Multimap.stableSort_values HardwareAccess.tsc as
  refine ⟨as, _, hscan.accesses_eq, ?_, reorderHardware_scan hload hscan, fun opened' memory' => ⟨?_, ?_⟩⟩
  · -- The scan of written accesses is no other than that of the load.
    rintro version bs hbs rfl
    rw [load_header] at hload
    cases hload
    obtain ⟨g', hscan'⟩ := scan_encodeAll version (.new opened memory) hbs
    exact Option.some_inj.mp (hscan.accesses_eq.symm.trans hscan'.accesses_eq)
  · exact ⟨_, readBack_encodeAll 0 (valid_byTsc hscan.valid), hsort⟩
  · -- The destination is in order already.
    have hagain : (byTsc (byTsc as).values).values = (byTsc as).values :=
      Multimap.values_ofKeys_of_sorted hsort.sorted
    obtain ⟨g', hscan'⟩ := scan_encodeAll 0 (.new opened' memory') (valid_byTsc hscan.valid)
    rw [reorderHardware_scan (load_header 0 _ _) hscan', hagain]

/-- Two writes of which the later one comes first, and their sorted file. -/
theorem reorderHardware_stable_two :
    ∃ dest bs, reorderHardware false (oneByteWrite 256)
        (some (header 0 ++ encodeAll [oneByteWrite 512, oneByteWrite 256])) =
          some (.written dest) ∧
      readBack false (oneByteWrite 256) (some dest) = some bs ∧
      StableSort HardwareAccess.tsc [oneByteWrite 512, oneByteWrite 256] bs := by
  obtain ⟨as, dest, -, has, hdest, hagain⟩ := reorderHardware_stable false (oneByteWrite 256) _ true _
    (load_header 0 (encodeAll [oneByteWrite 512, oneByteWrite 256]) _)
  obtain ⟨⟨bs, hbs, hsort⟩, -⟩ := hagain false (oneByteWrite 256)
  rw [has 0 [oneByteWrite 512, oneByteWrite 256] (by decide) rfl] at hsort
  exact ⟨dest, bs, hdest, hbs, hsort⟩

end

/-! ## Sources that are cut -/

section

variable {as : List HardwareAccess} {a : HardwareAccess} {t : List UInt8} {opened : Bool}
  {memory : HardwareAccess}

/-- Written accesses, and then an access that the end of the file cuts: the scan stops before it when
what is there of its timestamp is zero, and goes through one access more otherwise. -/
theorem scan_cut (version : UInt32) (f : HardwareFile) (has : ∀ a ∈ as, a.Recorded)
    (ha : a.Sized) (ht : t <+: a.encode) (hne : t ≠ a.encode) :
    ((∀ b ∈ t.take 8, b = 0) ∧
        ∃ g, Scan (f.loaded (header version ++ (encodeAll as ++ t))) as g) ∨
      (¬ (∀ b ∈ t.take 8, b = 0) ∧
        ∃ x g, Scan (f.loaded (header version ++ (encodeAll as ++ t))) (as ++ [x]) g) := by
  have hdrop : (header version ++ (encodeAll as ++ t)).drop 12 = encodeAll as ++ t := by
    rw [← length_header version, List.drop_left]
  obtain ⟨f', o, hf', hrest, ho, hscan⟩ := exists_scan_append
    (f.loaded (header version ++ (encodeAll as ++ t))) rfl hdrop
    (by rw [List.length_append, length_header]; omega) has
  -- Up to the cut access everything is read; its timestamp has zeros for the missing bytes.
  have heof : f'.file.eof = false := by rw [hf']; rfl
  have htsc : f'.next.current.tsc = .ofNat (ofBytes (t.take 8)) := by
    have hvalue := readHardwareAccess_tsc (header version ++ (encodeAll as ++ t)) o
    rw [next_read heof, hf', hvalue, leAt, hrest]
  have hvalid : f'.next.current.valid = false ↔ ∀ b ∈ t.take 8, b = 0 := by
    rw [← ofNat_ofBytes_take_eq_zero_iff, ← htsc]
    exact bne_eq_false_iff_eq
  by_cases hzero : ∀ b ∈ t.take 8, b = 0
  · refine .inl ⟨hzero, f'.next, ?_⟩
    have h := hscan [] _ (.stop (hvalid.mpr hzero))
    rwa [List.append_nil] at h
  · refine .inr ⟨hzero, f'.next.current, f'.next.next, hscan _ _ ?_⟩
    refine .step (Bool.eq_true_of_not_eq_false (mt hvalid.mp hzero)) (.stop ?_)
    -- Reading the cut access has met the end of the file.
    have hend : f'.next.file.eof = true := by
      rw [next_read heof, hf']
      exact readHardwareAccess_cut ha hrest ho ht hne
    rw [next_eof hend]
    rfl

/-- From the destination of `reorder_hardware` the accesses `as` are read back, in some order, and no
others. -/
def ReordersTo (source : List UInt8) (as : List HardwareAccess) : Prop :=
  ∀ opened memory, ∃ dest bs, reorderHardware opened memory (some source) = some (.written dest) ∧
    readBack opened memory (some dest) = some bs ∧ bs.Perm as

/-- The accesses of the scan are those that are read back. -/
theorem reordersTo_scan (version : UInt32) {bs : List UInt8}
    (h : ∀ f : HardwareFile, ∃ g, Scan (f.loaded (header version ++ bs)) as g) :
    ReordersTo (header version ++ bs) as := by
  intro opened memory
  obtain ⟨g, hscan⟩ := h (.new opened memory)
  exact ⟨_, _, reorderHardware_scan (load_header version bs _) hscan,
    readBack_encodeAll 0 (valid_byTsc hscan.valid),
    (Multimap.stableSort_values HardwareAccess.tsc as).perm⟩

/-- No others are read back. -/
theorem ReordersTo.perm {version : UInt32} {bs : List UInt8} {xs : List HardwareAccess}
    {g : HardwareFile} (h : ReordersTo (header version ++ bs) as)
    (hscan : Scan ((HardwareFile.new opened memory).loaded (header version ++ bs)) xs g) :
    xs.Perm as := by
  obtain ⟨dest, ys, hdest, hys, hperm⟩ := h opened memory
  rw [reorderHardware_scan (load_header version bs _) hscan] at hdest
  cases hdest
  rw [readBack_encodeAll 0 (valid_byTsc hscan.valid)] at hys
  cases hys
  exact (Multimap.stableSort_values HardwareAccess.tsc xs).perm.symm.trans hperm

/-- `reorder_hardware` on a recording that was cut while an access was being written. The incomplete
access is left out exactly when what is there of its timestamp is zero; any other one is written out
as if it had been recorded. -/
theorem reordersTo_cut_iff (version : UInt32) (as : List HardwareAccess) (a : HardwareAccess)
    (t : List UInt8) (has : ∀ a ∈ as, a.Recorded) (ha : a.Sized)
    (ht : t <+: a.encode) (hne : t ≠ a.encode) :
    ReordersTo (header version ++ (encodeAll as ++ t)) as ↔ ∀ b ∈ t.take 8, b = 0 := by
  constructor
  · intro h
    rcases scan_cut version (.new false a) has ha ht hne with ⟨hzero, -⟩ | ⟨-, x, g, hscan⟩
    · exact hzero
    · have hlength := (h.perm hscan).length_eq
      rw [List.length_append, List.length_singleton] at hlength
      omega
  · intro hzero
    refine reordersTo_scan version fun f => ?_
    rcases scan_cut version f has ha ht hne with ⟨-, hscan⟩ | ⟨hnonzero, -⟩
    · exact hscan
    · exact (hnonzero hzero).elim

/-- Cut after the first byte of its timestamp, which is zero, the access is left out. -/
theorem reordersTo_cut_in_zeros :
    ReordersTo (header 0 ++ (encodeAll [oneByteWrite 256] ++ [0])) [oneByteWrite 256] :=
  (reordersTo_cut_iff 0 [oneByteWrite 256] (oneByteWrite 256) [0] (by decide) (by decide)
    ⟨(oneByteWrite 256).encode.tail, rfl⟩
    (fun h => absurd (congrArg List.length h) (by decide))).mpr (by simp)

/-- Cut in its data, it is not. -/
theorem not_reordersTo_cut : ¬ ∀ (version : UInt32) (as : List HardwareAccess) (a : HardwareAccess)
    (t : List UInt8), (∀ a ∈ as, a.Recorded) → a.Sized → t <+: a.encode →
      t ≠ a.encode → ReordersTo (header version ++ (encodeAll as ++ t)) as := by
  intro halways
  have hsized : (oneByteWrite 256).Sized := by decide
  have ht : (oneByteWrite 256).fields <+: (oneByteWrite 256).encode := List.prefix_append _ _
  have hne : (oneByteWrite 256).fields ≠ (oneByteWrite 256).encode := fun h =>
    absurd (congrArg List.length h) (by decide)
  have hnone : ∀ a ∈ ([] : List HardwareAccess), a.Recorded := List.forall_mem_nil _
  have h := halways 0 [] (oneByteWrite 256) (oneByteWrite 256).fields hnone hsized ht hne
  rcases scan_cut 0 (.new false (oneByteWrite 256)) hnone hsized ht hne
    with ⟨hzero, -⟩ | ⟨-, x, g, hscan⟩
  · exact absurd hzero (by decide)
  · have hlength := (h.perm hscan).length_eq
    cases hlength

end

/-! ## The same destination -/

/-- Written accesses can be told apart by their bytes. -/
theorem encodeAll_inj {as bs : List HardwareAccess} (has : ∀ a ∈ as, a.Recorded)
    (hbs : ∀ b ∈ bs, b.Recorded) : encodeAll as = encodeAll bs ↔ as = bs := by
  refine ⟨fun h => ?_, congrArg encodeAll⟩
  have hread : readBack false (oneByteWrite 0) (some (header 0 ++ encodeAll as)) = some bs := by
    rw [h]
    exact readBack_encodeAll 0 hbs
  rw [readBack_encodeAll 0 has] at hread
  exact Option.some_inj.mp hread

/-- Two sources that load, truncated ones included, have the same destination, byte for byte, exactly when in
both of them each timestamp has the same accesses in the same order. -/
theorem reorderHardware_inj (opened opened' : Bool) (memory memory' : HardwareAccess)
    (source source' : Option (List UInt8)) (b b' : Bool) (file file' : HardwareFile)
    (hload : (HardwareFile.new opened memory).load source = .returned b file)
    (hload' : (HardwareFile.new opened' memory').load source' = .returned b' file') :
    ∃ as bs dest dest', file.accesses = some as ∧ file'.accesses = some bs ∧
      reorderHardware opened memory source = some (.written dest) ∧
      reorderHardware opened' memory' source' = some (.written dest') ∧
      (dest = dest' ↔ ∀ tsc, as.filter (fun a => a.tsc = tsc) = bs.filter fun a => a.tsc = tsc) := by
  obtain ⟨c, hhealthy⟩ := load_healthy hload
  obtain ⟨c', hhealthy'⟩ := load_healthy hload'
  obtain ⟨as, g, hscan⟩ := exists_scan file hhealthy
  obtain ⟨bs, g', hscan'⟩ := exists_scan file' hhealthy'
  refine ⟨as, bs, _, _, hscan.accesses_eq, hscan'.accesses_eq, reorderHardware_scan hload hscan,
    reorderHardware_scan hload' hscan', ?_⟩
  rw [List.append_cancel_left_eq, encodeAll_inj (valid_byTsc hscan.valid) (valid_byTsc hscan'.valid)]
  exact Multimap.stableSort_eq_iff (Multimap.stableSort_values HardwareAccess.tsc as)
    (Multimap.stableSort_values HardwareAccess.tsc bs)

/-- Two writes in either order have the same destination. -/
theorem reorderHardware_inj_swapped : ∃ dest,
    reorderHardware false (oneByteWrite 0)
        (some (header 0 ++ encodeAll [oneByteWrite 512, oneByteWrite 256])) = some (.written dest) ∧
      reorderHardware true (oneByteWrite 7)
        (some (header 1 ++ encodeAll [oneByteWrite 256, oneByteWrite 512])) = some (.written dest) := by
  obtain ⟨as, bs, dest, dest', has, hbs, hdest, hdest', hiff⟩ := reorderHardware_inj false true
    (oneByteWrite 0) (oneByteWrite 7) _ _ true true _ _
    (load_header 0 (encodeAll [oneByteWrite 512, oneByteWrite 256]) _)
    (load_header 1 (encodeAll [oneByteWrite 256, oneByteWrite 512]) _)
  have hrecorded : ∀ a ∈ [oneByteWrite 512, oneByteWrite 256], a.Recorded := by decide
  have hrecorded' : ∀ a ∈ [oneByteWrite 256, oneByteWrite 512], a.Recorded := by decide
  obtain ⟨g, hscan⟩ := scan_encodeAll 0 (.new false (oneByteWrite 0)) hrecorded
  obtain ⟨g', hscan'⟩ := scan_encodeAll 1 (.new true (oneByteWrite 7)) hrecorded'
  rw [hscan.accesses_eq] at has
  rw [hscan'.accesses_eq] at hbs
  cases has
  cases hbs
  have hsame : dest = dest' := hiff.mpr fun tsc => by
    by_cases h : (256 : UInt64) = tsc
    · subst h
      rfl
    · simp [List.filter_cons, oneByteWrite, h]
  exact ⟨dest, hdest, hsame ▸ hdest'⟩

end RvnSyncPoint
