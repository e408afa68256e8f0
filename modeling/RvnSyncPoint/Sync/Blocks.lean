import RvnSyncPoint.Extraction
import RvnSyncPoint.Sync.Record

/-!
# Blocks in the data file

The list of blocks that begins at an offset of the data file is `Terminated` when its end marker is
found inside the file. Reading such a list leaves the data file open; any other list is read across
the end of the file, which the file then says it has met (`dataAt_openAt`). The blocks that are read
depend on the offset only (`blocksAt`), as long as the end was not met before.
-/

namespace RvnSyncPoint

open LittleEndian Loop StreamableFile

/-- The list of blocks at the offset `o` ends inside the file. -/
inductive Terminated (dc : List UInt8) : ℕ → Prop
  | stop {o : ℕ} (hle : o + 4 ≤ dc.length) (htype : leAt dc o 4 = 0) : Terminated dc o
  | block {o : ℕ} (hle : o + 20 + leAt dc (o + 12) 8 ≤ dc.length) (htype : leAt dc o 4 ≠ 0)
    (rest : Terminated dc (o + 20 + leAt dc (o + 12) 8)) : Terminated dc o

section

variable {dc : List UInt8} {o : ℕ} {d : StreamableFile}

theorem Terminated.le_length (h : Terminated dc o) : o + 4 ≤ dc.length := by
  cases h with
  | stop hle htype => exact hle
  | block hle htype rest => omega

/-- A list whose first type is the end marker is terminated when the marker is whole. -/
theorem terminated_iff_of_stop (htype : leAt dc o 4 = 0) :
    Terminated dc o ↔ o + 4 ≤ dc.length :=
  ⟨Terminated.le_length, fun hle => .stop hle htype⟩

/-- A list that begins with a block is terminated when the block is whole and the rest is. -/
theorem terminated_iff_of_block (htype : leAt dc o 4 ≠ 0) :
    Terminated dc o ↔ o + 20 + leAt dc (o + 12) 8 ≤ dc.length ∧
      Terminated dc (o + 20 + leAt dc (o + 12) 8) := by
  constructor
  · intro h
    cases h with
    | stop hle hzero => exact absurd hzero htype
    | block hle htype rest => exact ⟨hle, rest⟩
  · rintro ⟨hle, rest⟩
    exact .block hle htype rest

/-- Where a type is not zero, there is something to read. -/
theorem lt_length_of_leAt_ne {k : ℕ} (h : leAt dc o k ≠ 0) : o < dc.length := by
  by_contra hle
  apply h
  rw [leAt, List.drop_eq_nil_of_le (not_lt.mp hle), List.take_nil]
  rfl

theorem readUInt32_eq_dataEnd : (extract readUInt32 (openAt dc o)).1 = dataEnd ↔ leAt dc o 4 = 0 := by
  rw [readUInt32_value, dataEnd, ← UInt32.toNat_inj, UInt32.toNat_ofNat_of_lt' (leAt_lt dc o 4)]
  rfl

/-! ## The data loop -/

/-- A pass of the data loop at the end marker. -/
theorem readBlock_stop (htype : leAt dc o 4 = 0) (blocks : List SyncPointData) :
    ∃ d, readBlock (blocks, openAt dc o) = some (.inr (blocks, d)) ∧
      (o + 4 ≤ dc.length ∧ d = openAt dc (o + 4) ∨ dc.length < o + 4 ∧ d.eof = true) := by
  refine ⟨(extract readUInt32 (openAt dc o)).2, if_pos (readUInt32_eq_dataEnd.mpr htype), ?_⟩
  rcases Nat.lt_or_ge dc.length (o + 4) with hlt | hle
  · refine .inr ⟨hlt, ?_⟩
    rw [readUInt32, extract_bind, readRaw_openAt_short hlt (by omega)]
    rfl
  · refine .inl ⟨hle, ?_⟩
    rw [readUInt32_openAt hle]

/-- The contents of a block, read inside the file up to their size. -/
theorem readVector_after (h : o + 8 ≤ dc.length) :
    After dc (o + 8 + leAt dc o 8) (extract (readVector readUInt8) (openAt dc o)).2 := by
  have hsize : (UInt64.ofNat (leAt dc o 8)).toNat = leAt dc o 8 :=
    UInt64.toNat_ofNat_of_lt' (leAt_lt dc o 8)
  rw [readVector, extract_bind, readUInt64_openAt h]
  have hitems := readElements_asks (UInt64.ofNat (leAt dc o 8)).toNat dc (o + 8) _ (.inl ⟨rfl, h⟩)
  rw [hsize] at hitems
  rw [hsize]
  exact hitems

/-- A pass of the data loop at a block. -/
theorem readBlock_block (htype : leAt dc o 4 ≠ 0) (blocks : List SyncPointData) :
    ∃ b d, readBlock (blocks, openAt dc o) = some (.inl (blocks ++ [b], d)) ∧
      After dc (o + 20 + leAt dc (o + 12) 8) d := by
  have hstart : After dc o (openAt dc o) := .inl ⟨rfl, (lt_length_of_leAt_ne htype).le⟩
  refine ⟨_, (extract (readVector readUInt8) (extract readUInt64
    (extract readUInt32 (openAt dc o)).2).2).2, if_neg (mt readUInt32_eq_dataEnd.mp htype), ?_⟩
  have hoffset : After dc (o + 12) (extract readUInt64 (extract readUInt32 (openAt dc o)).2).2 :=
    readUInt64_asks _ _ _ (readUInt32_asks _ _ _ hstart)
  rcases Nat.lt_or_ge dc.length (o + 20) with hlt | hle
  · -- The end of the file comes before the contents, and nothing reads past it.
    have hsize := readUInt64_asks _ _ _ hoffset
    have heof := hsize.eof hlt
    rcases hsize with ⟨-, hle⟩ | ⟨⟨e, hend⟩, -⟩
    · omega
    · rw [readVector, extract_bind, readElements_eof _ heof]
      exact .inr ⟨⟨e, hend⟩, by omega⟩
  · rcases hoffset with ⟨hopen, -⟩ | ⟨-, hlt⟩
    · rw [hopen]
      exact readVector_after (o := o + 12) (by omega)
    · omega

/-- The data loop on a file that has met its end. -/
theorem readBlocks_eof (heof : d.eof = true) (blocks : List SyncPointData) :
    loop readBlock (blocks, d) = some (blocks, d) := by
  apply loop_leave
  unfold readBlock
  dsimp only
  rw [readUInt32_silent (.of_eof heof)]
  rfl

/-- The data loop from the offset `o`: it leaves the file open if the list is terminated, and meets the
end of the file if it is not. The induction is on what is left of the file. -/
theorem readBlocks_openAt (n : ℕ) : ∀ o blocks, dc.length - o = n →
    ∃ bs d, loop readBlock (blocks, openAt dc o) = some (blocks ++ bs, d) ∧
      (Terminated dc o ∧ (∃ o', d = openAt dc o') ∨ ¬ Terminated dc o ∧ d.eof = true) ∧
      (bs = [] ↔ leAt dc o 4 = 0) := by
  -- The induction is on the bytes that are left.
  induction n using Nat.strongRecOn with
  | ind n ih =>
    intro o blocks hn
    by_cases htype : leAt dc o 4 = 0
    · obtain ⟨d, hpass, hd⟩ := readBlock_stop htype blocks
      refine ⟨[], d, ?_, ?_, by simp [htype]⟩
      · rw [loop_leave hpass, List.append_nil]
      · rw [terminated_iff_of_stop htype]
        rcases hd with ⟨hle, hopen⟩ | ⟨hlt, heof⟩
        · exact .inl ⟨hle, _, hopen⟩
        · exact .inr ⟨not_le.mpr hlt, heof⟩
    · -- There is a block, and the loop goes round again after it.
      obtain ⟨b, d, hpass, hd⟩ := readBlock_block htype blocks
      rw [loop_again hpass, terminated_iff_of_block htype]
      have hlt := lt_length_of_leAt_ne htype
      rcases hd with ⟨rfl, hle⟩ | ⟨⟨e, rfl⟩, hlt'⟩
      · obtain ⟨bs, d, hloop, hd, -⟩ := ih _ (by omega) (o + 20 + leAt dc (o + 12) 8) (blocks ++ [b]) rfl
        refine ⟨b :: bs, d, ?_, ?_, by simp [htype]⟩
        · rw [hloop, List.append_assoc, List.singleton_append]
        · rcases hd with ⟨hrest, hopen⟩ | ⟨hrest, heof⟩
          · exact .inl ⟨⟨hle, hrest⟩, hopen⟩
          · exact .inr ⟨fun h => hrest h.2, heof⟩
      · -- The block is cut. The next type is read as zero, which ends the list.
        refine ⟨[b], _, readBlocks_eof rfl _, .inr ⟨fun h => ?_, rfl⟩, by simp [htype]⟩
        omega

/-! ## The blocks of an offset -/

/-- The blocks that a record's data offset points to, in a data file of which nothing but its magic was
read. -/
def blocksAt (dc : List UInt8) (offset : UInt32) : List SyncPointData := (dataAt offset (openAt dc 8)).1

/-- Reading the blocks of an offset, whatever was read before as long as the end of the file was not
met: they are those of the offset, and the end of the file is met if their list is not terminated. -/
theorem dataAt_openAt (dc : List UInt8) (offset : UInt32) (o : ℕ) :
    (dataAt offset (openAt dc o)).1 = blocksAt dc offset ∧
      ((offset = 0 ∨ Terminated dc offset.toNat) ∧ (∃ o', (dataAt offset (openAt dc o)).2 = openAt dc o') ∨
        ¬ (offset = 0 ∨ Terminated dc offset.toNat) ∧ (dataAt offset (openAt dc o)).2.eof = true) := by
  by_cases h0 : offset = 0
  · rw [h0, blocksAt, dataAt_zero, dataAt_zero]
    exact ⟨rfl, .inl ⟨.inl rfl, o, rfl⟩⟩
  · have hread : ∀ o, readData offset (openAt dc o) = loop readBlock ([], openAt dc offset.toNat) := by
      intro o
      have hseek : (openAt dc o).seek offset.toNat = openAt dc offset.toNat :=
        (openAt_on dc o).seek (lt_trans offset.toNat_lt (by norm_num))
      rw [readData, if_pos (by simp [h0]), hseek]
    obtain ⟨bs, d, hloop, hd, -⟩ := readBlocks_openAt _ offset.toNat [] rfl
    have hdata : ∀ o, dataAt offset (openAt dc o) = ([] ++ bs, d) := by
      intro o
      rw [dataAt, hread, hloop]
      rfl
    rw [blocksAt, hdata, hdata]
    refine ⟨rfl, hd.imp (fun h => ⟨.inr h.1, h.2⟩) (fun h => ⟨fun hor => ?_, h.2⟩)⟩
    exact h.1 (hor.resolve_left h0)

/-- An offset has no blocks when it is zero, or when the end marker is all that is there. -/
theorem blocksAt_eq_nil (offset : UInt32) :
    blocksAt dc offset = [] ↔ offset = 0 ∨ leAt dc offset.toNat 4 = 0 := by
  by_cases h0 : offset = 0
  · rw [h0, blocksAt, dataAt_zero]
    simp
  · obtain ⟨bs, d, hloop, -, hnil⟩ := readBlocks_openAt _ offset.toNat [] rfl
    have hseek : (openAt dc 8).seek offset.toNat = openAt dc offset.toNat :=
      (openAt_on dc 8).seek (lt_trans offset.toNat_lt (by norm_num))
    have hblocks : blocksAt dc offset = bs := by
      rw [blocksAt, dataAt, readData, if_pos (by simp [h0]), hseek, hloop]
      rfl
    rw [hblocks, hnil, or_iff_right h0]

end

end RvnSyncPoint
