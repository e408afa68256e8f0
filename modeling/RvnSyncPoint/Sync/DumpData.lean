import RvnSyncPoint.Sync.DataLoop
import RvnSyncPoint.Sync.DumpPoints
import RvnSyncPoint.Sync.History

/-!
# `dump_sync_points_data`

The `operator<<` of a block of data (`src/sync_point.cpp`), and the program that prints the timestamps of
the points of a sync file with the blocks attached to them
(`bin/dump_sync_points_data/dump_sync_points_data.cpp`). A block leaves the stream hexadecimal, and
nothing sets it back: timestamps are decimal up to the first block and hexadecimal after it
(`dataText`). What the program prints tells the timestamps and the blocks nevertheless, up to the types of
blocks that have no name (`dumpSyncPointsData_inj`).
-/

namespace RvnSyncPoint

open LittleEndian Loop Printing StreamableFile

/-- `sync_point_data_type::memory_logical`. -/
def memoryLogical : UInt32 := 1

/-- `sync_point_data_type::memory_physical`. -/
def memoryPhysical : UInt32 := 2

namespace SyncPointData

/-- What is printed for the type of a block. -/
def label (data : SyncPointData) : String :=
  if data.type = memoryLogical then "LOGICAL:"
  else if data.type = memoryPhysical then "PHYSCAL:"
  else "DATAEND:"

/-- The block as it is printed: every type without a name looks like the end marker. -/
def shown (data : SyncPointData) : SyncPointData :=
  if data.type = memoryLogical ∨ data.type = memoryPhysical then data else { data with type := dataEnd }

end SyncPointData

namespace Ostream

/-- The loop on the bytes of a block, from the byte `i` on. The counter of the source is an `int`: the
blocks are shorter than `2 ^ 31` bytes. -/
def dataBytes : ℕ → List UInt8 → Ostream → Ostream
  | _, [], out => out
  | i, d :: ds, out =>
    let out :=
      if i % 0x10 = 0 then
        let out := if i ≠ 0 then out.char '\n' else out
        out |>.setw 8 |>.number i |>.str ": "
      else out
    dataBytes (i + 1) ds (out |>.setw 2 |>.number d.toNat |>.char ' ')

/-- `out << data`. -/
def syncPointData (data : SyncPointData) (out : Ostream) : Ostream :=
  out |>.hex |>.str data.label |>.number data.offset.toNat |>.char '\n' |>.dataBytes 0 data.data

/-- The lines of a point. -/
def pointData (point : SyncPoint) (cout : Ostream) : Ostream :=
  point.data.foldl (fun cout d => cout |>.char ' ' |>.syncPointData d |>.endl)
    (cout |>.str "TSC=" |>.number point.tsc.toNat |>.endl)

end Ostream

/-- One pass of the loop of `dump_sync_points_data`. -/
def dataPass : SyncFile × Ostream → Option (SyncFile × Ostream ⊕ Ostream) :=
  printPass fun _ point => Ostream.pointData point

/-- `main()` of `dump_sync_points_data` with a sync file and a data file. -/
def dumpSyncPointsData (u : Uninitialised) (source data : Option (List UInt8)) :
    Option (Exit × Ostream) :=
  match (SyncFile.new u).load source data with
  | .thrown err _ => some (.thrown err, {})
  | .divisionByZero => some (.divisionByZero, {})
  | .returned _ file => do return (.returned, ← loop dataPass (file, {}))

/-! ## The text -/

/-- The text of the bytes of a block, from the byte `i` on. -/
def bytesText : ℕ → List UInt8 → List Char
  | _, [] => []
  | i, d :: ds =>
    (if i % 0x10 = 0 then
      (if i ≠ 0 then ['\n'] else []) ++ ((Nat.toDigits 16 i).leftpad 8 ' ' ++ ": ".toList)
    else []) ++ ((Nat.toDigits 16 d.toNat).leftpad 2 ' ' ++ ' ' :: bytesText (i + 1) ds)

/-- The text of a block, with the blank before it and the line feed after it. -/
def blockText (b : SyncPointData) : List Char :=
  ' ' :: b.label.toList ++ (Nat.toDigits 16 b.offset.toNat ++ '\n' :: (bytesText 0 b.data ++ ['\n']))

/-- The base after blocks were printed in a stream of the base `base`. -/
def Base.afterBlocks (base : Base) (bs : List SyncPointData) : Base := if bs = [] then base else .hex

/-- The text of points, in a stream of the base `base`. -/
def dataText : Base → List SyncPoint → List Char
  | _, [] => []
  | base, p :: ps =>
    "TSC=".toList ++ (Nat.toDigits base.radix p.tsc.toNat ++ '\n' ::
      (p.data.flatMap blockText ++ dataText (base.afterBlocks p.data) ps))

section

variable (t : List Char)

theorem Ostream.dataBytes_eq (ds : List UInt8) : ∀ (i : ℕ) (t : List Char),
    (Ostream.mk t .hex false ' ' 0).dataBytes i ds = ⟨t ++ bytesText i ds, .hex, false, ' ', 0⟩ := by
  induction ds with
  | nil => simp [dataBytes, bytesText]
  | cons d ds ih =>
    intro i t
    unfold dataBytes bytesText
    have hbyte (t : List Char) : (((Ostream.mk t .hex false ' ' 0).setw 2).number d.toNat).char ' ' =
        ⟨t ++ ((Nat.toDigits 16 d.toNat).leftpad 2 ' ' ++ [' ']), .hex, false, ' ', 0⟩ := by
      simp [setw, number, char, insert]
    have hindex (t : List Char) : (((Ostream.mk t .hex false ' ' 0).setw 8).number i).str ": " =
        ⟨t ++ ((Nat.toDigits 16 i).leftpad 8 ' ' ++ ": ".toList), .hex, false, ' ', 0⟩ := by
      simp [setw, number, str, insert]
    have hchar : (Ostream.mk t .hex false ' ' 0).char '\n' = ⟨t ++ ['\n'], .hex, false, ' ', 0⟩ := by
      simp [char]
    split_ifs
    · dsimp only
      rw [hchar, hindex, hbyte, ih]
      simp
    · dsimp only
      rw [hindex, hbyte, ih]
      simp
    · dsimp only
      rw [hbyte, ih]
      simp

/-- A block, in a stream of any base. -/
theorem Ostream.block_eq (base : Base) (b : SyncPointData) :
    (((Ostream.mk t base false ' ' 0).char ' ').syncPointData b).endl =
      ⟨t ++ blockText b, .hex, false, ' ', 0⟩ := by
  unfold syncPointData char blockText
  rw [insert_mk_zero, hex, str_mk_zero, number_mk_zero, numeral_hex, insert_mk_zero, dataBytes_eq, endl]
  simp

/-- Blocks, one after the other. -/
theorem Ostream.blocks_eq (bs : List SyncPointData) : ∀ (t : List Char) (base : Base),
    bs.foldl (fun cout d => ((cout.char ' ').syncPointData d).endl) (Ostream.mk t base false ' ' 0) =
      ⟨t ++ bs.flatMap blockText, base.afterBlocks bs, false, ' ', 0⟩ := by
  induction bs with
  | nil => simp [Base.afterBlocks]
  | cons b bs ih =>
    intro t base
    rw [List.foldl_cons, block_eq, ih, List.flatMap_cons, List.append_assoc]
    cases bs <;> rfl

/-- The lines of a point. -/
theorem Ostream.pointData_eq (base : Base) (p : SyncPoint) :
    (Ostream.mk t base false ' ' 0).pointData p =
      ⟨t ++ ("TSC=".toList ++ (Nat.toDigits base.radix p.tsc.toNat ++ '\n' :: p.data.flatMap blockText)),
        base.afterBlocks p.data, false, ' ', 0⟩ := by
  have hnumeral : numeral base false p.tsc.toNat = Nat.toDigits base.radix p.tsc.toNat := by
    cases base <;> rfl
  unfold pointData
  rw [str_mk_zero, number_mk_zero, hnumeral, endl, blocks_eq]
  simp

/-- The lines of points. -/
theorem Ostream.pointsData_text (ps : List SyncPoint) : ∀ (t : List Char) (base : Base),
    (ps.foldl (fun cout p => cout.pointData p) (Ostream.mk t base false ' ' 0)).text =
      t ++ dataText base ps := by
  induction ps with
  | nil => simp [dataText]
  | cons p ps ih =>
    intro t base
    rw [List.foldl_cons, pointData_eq, ih, dataText]
    simp

end

/-! ## What the text tells -/

/-- What may follow the text of a block: nothing, another block, or another point. -/
inductive AfterBlock : List Char → Prop
  | nil : AfterBlock []
  | block {s : List Char} {c : Char} (hc : c ∈ ['L', 'P', 'D']) : AfterBlock (' ' :: c :: s)
  | point {s : List Char} : AfterBlock ('T' :: s)

/-- The characters of a hexadecimal field. -/
theorem mem_field {n w : ℕ} {c : Char} (h : c ∈ (Nat.toDigits 16 n).leftpad w ' ') :
    c ≠ '\n' ∧ c ≠ 'T' ∧ c ∉ ['L', 'P', 'D'] := by
  have hdigits : ∀ d < 16, Nat.digitChar d ≠ '\n' ∧ Nat.digitChar d ≠ 'T' ∧
      Nat.digitChar d ∉ ['L', 'P', 'D'] := by decide
  rw [List.leftpad, List.mem_append, List.mem_replicate] at h
  rcases h with ⟨-, rfl⟩ | h
  · decide
  · obtain ⟨d, hd, rfl⟩ := exists_digit (by norm_num) le_rfl n c h
    exact hdigits d hd

/-- A byte is not taken for the end of the block. -/
theorem bytesText_ne {s : List Char} (hs : AfterBlock s) (i : ℕ) (d : UInt8) (ds : List UInt8)
    (t : List Char) : '\n' :: s ≠ bytesText i (d :: ds) ++ t := by
  have hfirst (n w : ℕ) (u : List Char) : '\n' :: s ≠ (Nat.toDigits 16 n).leftpad w ' ' ++ u := by
    have hne : (Nat.toDigits 16 n).leftpad w ' ' ≠ [] := by simp [List.leftpad]
    obtain ⟨c, v, hc⟩ := List.exists_cons_of_ne_nil hne
    rw [hc]
    intro h
    exact (mem_field (by rw [hc]; simp)).1 (List.cons.inj h).1.symm
  intro h
  unfold bytesText at h
  split_ifs at h with hi hzero
  · -- The line feed is that of the next line of bytes, which begins with its index.
    simp only [List.append_assoc, List.cons_append, List.nil_append, List.cons.injEq, true_and] at h
    have hlength : 2 ≤ ((Nat.toDigits 16 i).leftpad 8 ' ').length := by
      rw [List.length_leftpad]
      omega
    generalize hfield : (Nat.toDigits 16 i).leftpad 8 ' ' = field at h hlength
    match field, hlength with
    | c :: c' :: v, _ =>
      have hc : c ∈ (Nat.toDigits 16 i).leftpad 8 ' ' := by rw [hfield]; simp
      have hc' : c' ∈ (Nat.toDigits 16 i).leftpad 8 ' ' := by rw [hfield]; simp
      cases hs with
      | nil => cases h
      | block hmem => exact (mem_field hc').2.2 ((List.cons.inj (List.cons.inj h).2).1 ▸ hmem)
      | point => exact (mem_field hc).2.1 (List.cons.inj h).1.symm
  · simp only [List.nil_append, List.append_assoc] at h
    exact hfirst _ _ _ h
  · simp only [List.nil_append, List.append_assoc] at h
    exact hfirst _ _ _ h

/-- The bytes that are printed from the byte `i` on, up to the end of the block. -/
theorem bytesText_inj (ds : List UInt8) : ∀ (ds' : List UInt8) (i : ℕ) (s t : List Char),
    AfterBlock s → AfterBlock t →
    bytesText i ds ++ '\n' :: s = bytesText i ds' ++ '\n' :: t → ds = ds' ∧ s = t := by
  induction ds with
  | nil =>
    intro ds' i s t hs ht h
    cases ds' with
    | nil => exact ⟨rfl, (List.cons.inj h).2⟩
    | cons d ds' => exact absurd h (bytesText_ne hs i d ds' _)
  | cons d ds ih =>
    intro ds' i s t hs ht h
    cases ds' with
    | nil => exact absurd h.symm (bytesText_ne ht i d ds _)
    | cons d' ds' =>
      have hlength (n : UInt8) : ((Nat.toDigits 16 n.toNat).leftpad 2 ' ').length = 2 :=
        length_leftpad_toDigits (by norm_num) (by norm_num) n.toNat_lt
      rw [bytesText, bytesText, List.append_assoc, List.append_assoc, List.append_assoc,
        List.append_assoc] at h
      obtain ⟨hbyte, hrest⟩ := List.append_inj (List.append_cancel_left h) (by rw [hlength, hlength])
      obtain ⟨hds, hst⟩ := ih ds' (i + 1) s t hs ht (List.cons.inj hrest).2
      have hd := UInt8.toNat_inj.mp (leftpad_toDigits_injective (by norm_num) le_rfl rfl hbyte)
      exact ⟨by rw [hd, hds], hst⟩

/-- What may follow the lines of a point: nothing, or another point. -/
inductive AfterPoint : List Char → Prop
  | nil : AfterPoint []
  | point {s : List Char} : AfterPoint ('T' :: s)

theorem AfterPoint.dataText (base : Base) (ps : List SyncPoint) : AfterPoint (dataText base ps) := by
  cases ps with
  | nil => exact .nil
  | cons p ps => exact .point

theorem label_length (b : SyncPointData) : b.label.toList.length = 8 := by
  unfold SyncPointData.label
  split_ifs <;> rfl

/-- The blocks that follow make no difference to where a block ends. -/
theorem AfterPoint.blocks {s : List Char} (h : AfterPoint s) (bs : List SyncPointData) :
    AfterBlock (bs.flatMap blockText ++ s) := by
  cases bs with
  | nil =>
    cases h with
    | nil => exact .nil
    | point => exact .point
  | cons b bs =>
    have hlabel : ∃ c v, b.label.toList = c :: v ∧ c ∈ ['L', 'P', 'D'] := by
      unfold SyncPointData.label
      split_ifs
      · exact ⟨'L', "OGICAL:".toList, rfl, by decide⟩
      · exact ⟨'P', "HYSCAL:".toList, rfl, by decide⟩
      · exact ⟨'D', "ATAEND:".toList, rfl, by decide⟩
    obtain ⟨c, v, hc, hmem⟩ := hlabel
    rw [List.flatMap_cons, blockText, hc]
    exact .block hmem

/-- The labels of two blocks are the same exactly when their types look the same. -/
theorem label_inj {b b' : SyncPointData} (h : b.label = b'.label) : b.shown.type = b'.shown.type := by
  unfold SyncPointData.label at h
  unfold SyncPointData.shown
  split_ifs at h ⊢ <;> simp_all [memoryLogical, memoryPhysical]

/-- A block prints like what it looks like. -/
theorem blockText_shown (b : SyncPointData) : blockText b.shown = blockText b := by
  have hlabel : b.shown.label = b.label := by
    unfold SyncPointData.shown SyncPointData.label
    split_ifs <;> simp_all [memoryLogical, memoryPhysical, dataEnd]
  have hrest : b.shown.offset = b.offset ∧ b.shown.data = b.data := by
    unfold SyncPointData.shown
    split_ifs <;> exact ⟨rfl, rfl⟩
  rw [blockText, hlabel, hrest.1, hrest.2, blockText]

/-- The text of a block, with what may follow it. -/
theorem blockText_inj {b b' : SyncPointData} {s t : List Char} (hs : AfterBlock s) (ht : AfterBlock t)
    (h : blockText b ++ s = blockText b' ++ t) : b.shown = b'.shown ∧ s = t := by
  have hhex (n : ℕ) : '\n' ∉ Nat.toDigits 16 n := not_mem_numeral (by norm_num) le_rfl (by decide) n
  unfold blockText at h
  simp only [List.cons_append, List.append_assoc, List.cons.injEq, true_and] at h
  obtain ⟨hlabel, hrest⟩ := List.append_inj h (by rw [label_length, label_length])
  obtain ⟨hoffset, hrest⟩ := append_cons_inj (hhex _) (hhex _) hrest
  obtain ⟨hdata, hst⟩ := bytesText_inj _ _ 0 s t hs ht hrest
  have hoffset := UInt64.toNat_inj.mp (toDigits_injective (by norm_num) le_rfl hoffset)
  have htype := label_inj (String.toList_injective hlabel)
  refine ⟨?_, hst⟩
  unfold SyncPointData.shown at htype ⊢
  cases b
  cases b'
  split_ifs at htype ⊢ <;> simp_all

/-- The blocks of a point, with what may follow them. -/
theorem blocks_inj (bs : List SyncPointData) : ∀ (bs' : List SyncPointData) (s t : List Char),
    AfterPoint s → AfterPoint t →
    bs.flatMap blockText ++ s = bs'.flatMap blockText ++ t →
    bs.map SyncPointData.shown = bs'.map SyncPointData.shown ∧ s = t := by
  induction bs with
  | nil =>
    intro bs' s t hs ht h
    cases bs' with
    | nil => exact ⟨rfl, h⟩
    | cons b' bs' => cases hs <;> cases h
  | cons b bs ih =>
    intro bs' s t hs ht h
    cases bs' with
    | nil => cases ht <;> cases h
    | cons b' bs' =>
      rw [List.flatMap_cons, List.flatMap_cons, List.append_assoc, List.append_assoc] at h
      obtain ⟨hb, hrest⟩ := blockText_inj (hs.blocks bs) (ht.blocks bs') h
      obtain ⟨hbs, hst⟩ := ih bs' s t hs ht hrest
      exact ⟨by rw [List.map_cons, List.map_cons, hb, hbs], hst⟩

/-- What is shown of a point. -/
def SyncPoint.shownData (p : SyncPoint) : UInt64 × List SyncPointData :=
  (p.tsc, p.data.map SyncPointData.shown)

/-- The text of points tells what is shown of them, and where their timestamps are hexadecimal. -/
theorem dataText_inj (ps : List SyncPoint) : ∀ (qs : List SyncPoint) (base : Base),
    dataText base ps = dataText base qs ↔ ps.map SyncPoint.shownData = qs.map SyncPoint.shownData := by
  induction ps with
  | nil =>
    intro qs base
    cases qs with
    | nil => exact iff_of_true rfl rfl
    | cons q qs => exact iff_of_false nofun nofun
  | cons p ps ih =>
    intro qs base
    cases qs with
    | nil => exact iff_of_false nofun nofun
    | cons q qs =>
      have hradix : 1 < base.radix ∧ base.radix ≤ 16 := by cases base <;> decide
      have hnumeral (n : ℕ) : '\n' ∉ Nat.toDigits base.radix n :=
        not_mem_numeral hradix.1 hradix.2 (by decide) n
      have hafter (h : p.data.map SyncPointData.shown = q.data.map SyncPointData.shown) :
          base.afterBlocks p.data = base.afterBlocks q.data := by
        have hempty : p.data = [] ↔ q.data = [] := by
          rw [← List.map_eq_nil_iff (f := SyncPointData.shown), h, List.map_eq_nil_iff]
        simp only [Base.afterBlocks, hempty]
      rw [dataText, dataText, List.map_cons, List.map_cons, List.cons.injEq, SyncPoint.shownData,
        SyncPoint.shownData, Prod.mk.injEq, ← ih qs (base.afterBlocks q.data)]
      constructor
      · intro h
        obtain ⟨htsc, hrest⟩ := append_cons_inj (hnumeral _) (hnumeral _) (List.append_cancel_left h)
        obtain ⟨hblocks, hrest⟩ := blocks_inj _ _ _ _ (.dataText _ _) (.dataText _ _) hrest
        rw [hafter hblocks] at hrest
        exact ⟨⟨UInt64.toNat_inj.mp (toDigits_injective hradix.1 hradix.2 htsc), hblocks⟩, hrest⟩
      · rintro ⟨⟨htsc, hblocks⟩, hrest⟩
        have hlook (bs : List SyncPointData) :
            bs.flatMap blockText = (bs.map SyncPointData.shown).flatMap blockText := by
          rw [List.flatMap_map]
          exact List.flatMap_congr fun b _ => (blockText_shown b).symm
        rw [htsc, hlook p.data, hblocks, ← hlook, hafter hblocks, hrest]

/-! ## The program -/

/-- What `next()` returns on a new reader of the recording, with the data file. -/
def Recording.attached (R : Recording) : Option (List UInt8) → Tape
  | none => R.dumped
  | some dc => tapeOf 0 {} (openAt dc 8) (R.recordsFrom 0)

/-- A new reader loads the recording with a data file that has its magic. -/
theorem load_attached (R : Recording) {data : Option (List UInt8)} (hdata : HasDataMagic data)
    (u : Uninitialised) : ∃ f, (SyncFile.new u).load (some R.content) data = .returned true f ∧
      Reading R f ∧ R.tape f = R.attached data := by
  cases data with
  | none =>
    obtain ⟨f, hf, hload⟩ := Loaded.exists_no_data R u
    obtain ⟨hposition, hcurrent, -, -⟩ := hf.fields
    refine ⟨f, hload, hf.reading, ?_⟩
    rw [Recording.tape, hposition, hcurrent, tapeOf_eof hf.no_data, Recording.attached, Recording.dumped]
  | some dc =>
    have hmagic := hdata dc rfl
    have hload := load_recording R (.new u) (some dc)
    rw [loadData_magic hmagic] at hload
    refine ⟨_, hload, Loaded.reading ⟨u, hload⟩, ?_⟩
    obtain ⟨hposition, hcurrent, -, -⟩ := Loaded.fields ⟨u, hload⟩
    rw [Recording.tape, hposition, hcurrent, Loaded.data_file hmagic ⟨u, hload⟩, Recording.attached]

/-- What `dump_sync_points_data` prints of a recording. -/
theorem dumpSyncPointsData_eq (R : Recording) {data : Option (List UInt8)} (hdata : HasDataMagic data)
    (u : Uninitialised) : ∃ out, dumpSyncPointsData u (some R.content) data = some (.returned, out) ∧
      out.text = dataText .dec ((R.attached data).map Prod.snd) := by
  obtain ⟨f, hload, hreading, htape⟩ := load_attached R hdata u
  refine ⟨(R.attached data).foldl (fun cout x => cout.pointData x.2) {}, ?_, ?_⟩
  · simp only [dumpSyncPointsData, hload, dataPass, loop_printPass _ _ f _ hreading htape]
    rfl
  · have htext := Ostream.pointsData_text ((R.attached data).map Prod.snd) [] .dec
    rwa [List.foldl_map, List.nil_append] at htext

/-- `dump_sync_points_data` ends on every recording with a data file that has its magic, or none. For two
of them it prints the same exactly when the points have the same timestamps and the same blocks, up to the
types of blocks that have no name. -/
theorem dumpSyncPointsData_inj (R S : Recording) (data data' : Option (List UInt8))
    (hdata : HasDataMagic data) (hdata' : HasDataMagic data') (u v : Uninitialised) :
    ∃ out out', dumpSyncPointsData u (some R.content) data = some (.returned, out) ∧
      dumpSyncPointsData v (some S.content) data' = some (.returned, out') ∧
      (out.text = out'.text ↔ (R.attached data).map (fun x => x.2.shownData) =
        (S.attached data').map fun x => x.2.shownData) := by
  obtain ⟨out, hout, htext⟩ := dumpSyncPointsData_eq R hdata u
  obtain ⟨out', hout', htext'⟩ := dumpSyncPointsData_eq S hdata' v
  refine ⟨out, out', hout, hout', ?_⟩
  rw [htext, htext', dataText_inj, List.map_map, List.map_map]
  rfl

/-- A data file of which a list of one block is read, and one of which none is. -/
theorem dumpSyncPointsData_inj_oneBlock : ∃ out out',
    dumpSyncPointsData ⟨false, false, 0, 0, fun _ => (0, .VMENTER)⟩ (some oneDataRecord.content)
        (some oneBlock) = some (.returned, out) ∧
      dumpSyncPointsData ⟨false, false, 0, 0, fun _ => (0, .VMENTER)⟩ (some oneDataRecord.content) none =
        some (.returned, out') ∧
      (out.text = out'.text ↔ (oneDataRecord.attached (some oneBlock)).map (fun x => x.2.shownData) =
        (oneDataRecord.attached none).map fun x => x.2.shownData) :=
  dumpSyncPointsData_inj oneDataRecord oneDataRecord (some oneBlock) none
    (by
      rintro dc ⟨⟩
      rw [oneBlock]
      exact List.prefix_append _ _)
    nofun _ _

end RvnSyncPoint
