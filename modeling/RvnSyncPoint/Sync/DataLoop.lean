import RvnSyncPoint.Sync.Blocks

/-!
# The data loop

The loop of `next()` on the blocks at a data offset looks for the end of neither the file nor the list:
it leaves on a type that is zero, which reads beyond the end of the file give. Every block that it finds
takes at least a byte, so it leaves after at most as many passes as there are bytes at the offset, and
one more; and blocks that were written there, followed by the end marker, are what it finds
(`readData_spec`).
-/

namespace RvnSyncPoint

open LittleEndian Loop StreamableFile

namespace SyncPointData

/-- The bytes of a block. -/
def encode (b : SyncPointData) : List UInt8 :=
  toBytes 4 b.type.toNat ++ (toBytes 8 b.offset.toNat ++
    (toBytes 8 (UInt64.ofNat b.data.length).toNat ++ b.data))

/-- The block is not taken for the end marker, and its length is a 64-bit number. -/
def Written (b : SyncPointData) : Prop := b.type ≠ dataEnd ∧ b.data.length < 2 ^ 64

end SyncPointData

variable {dc : List UInt8} {o : ℕ}

/-! ## The number of passes -/

/-- The bytes that are left to read, if the end of the file was not met. -/
def bytesLeft (d : StreamableFile) : ℕ :=
  if d.eof then 0 else d.in_file.content.length - d.in_file.cursor

theorem bytesLeft_openAt (dc : List UInt8) (o : ℕ) : bytesLeft (openAt dc o) = dc.length - o := rfl

/-- A pass leaves the loop, or takes a byte at least. -/
theorem readBlock_progress {d : StreamableFile} (h : Healthy dc d) (blocks : List SyncPointData) :
    (∃ r, readBlock (blocks, d) = some (.inr r)) ∨
      ∃ s, readBlock (blocks, d) = some (.inl s) ∧ Healthy dc s.2 ∧ bytesLeft s.2 < bytesLeft d := by
  rcases h with heof | ⟨o, rfl⟩
  · refine .inl ⟨(blocks, d), ?_⟩
    unfold readBlock
    dsimp only
    rw [readUInt32_silent (.of_eof heof)]
    rfl
  · by_cases htype : leAt dc o 4 = 0
    · obtain ⟨d, hpass, -⟩ := readBlock_stop htype blocks
      exact .inl ⟨_, hpass⟩
    · obtain ⟨b, d, hpass, hd⟩ := readBlock_block htype blocks
      have hlt := lt_length_of_leAt_ne htype
      refine .inr ⟨_, hpass, ?_⟩
      rw [bytesLeft_openAt]
      rcases hd with ⟨rfl, hle⟩ | ⟨⟨e, rfl⟩, -⟩
      · refine ⟨.inr ⟨_, rfl⟩, ?_⟩
        rw [bytesLeft_openAt]
        omega
      · exact ⟨.inl rfl, Nat.sub_pos_of_lt hlt⟩

/-- The loop leaves at the latest when every byte was taken by a pass. -/
theorem readBlock_leavesAfter (dc : List UInt8) (o : ℕ) :
    ∃ n r, LeavesAfter readBlock n ([], openAt dc o) r ∧ n ≤ dc.length - o + 1 :=
  exists_leavesAfter (fun s => Healthy dc s.2) (fun s => bytesLeft s.2)
    (fun s hs => readBlock_progress hs s.1) ([], openAt dc o) (.inr ⟨o, rfl⟩)

/-! ## Written blocks -/

/-- A pass finds the block that was written at the offset. -/
theorem readBlock_written {b : SyncPointData} (hb : b.Written) (hc : b.encode <+: dc.drop o)
    (blocks : List SyncPointData) : readBlock (blocks, openAt dc o) =
      some (.inl (blocks ++ [b], openAt dc (o + b.encode.length))) := by
  have hreads : Reads (do return (⟨← readUInt32, ← readUInt64, ← readVector readUInt8⟩ : SyncPointData))
      (toBytes 4 b.type.toNat ++ (toBytes 8 b.offset.toNat ++
        ((toBytes 8 (UInt64.ofNat b.data.length).toNat ++ b.data) ++ []))) b :=
    (readUInt32_reads b.type).bind ((readUInt64_reads b.offset).bind
      ((readVector_reads b.data hb.2).bind (Reads.pure b)))
  rw [List.append_nil] at hreads
  have hread := hreads dc o hc
  have htype : (extract readUInt32 (openAt dc o)).1 = b.type := congrArg (·.1.type) hread
  have hstep : readBlock (blocks, openAt dc o) =
      if (extract readUInt32 (openAt dc o)).1 = dataEnd
        then some (.inr (blocks, (extract readUInt32 (openAt dc o)).2))
      else some (.inl (blocks ++ [(extract (do
          return (⟨← readUInt32, ← readUInt64, ← readVector readUInt8⟩ : SyncPointData))
          (openAt dc o)).1], (extract (do
          return (⟨← readUInt32, ← readUInt64, ← readVector readUInt8⟩ : SyncPointData))
          (openAt dc o)).2)) := rfl
  rw [hstep, htype, if_neg hb.1, hread]
  rfl

/-- The loop finds the blocks that were written at the offset, up to the end marker. -/
theorem readBlocks_written {bs : List SyncPointData} (hbs : ∀ b ∈ bs, b.Written)
    (hc : bs.flatMap SyncPointData.encode ++ toBytes 4 0 <+: dc.drop o) (blocks : List SyncPointData) :
    ∃ o', loop readBlock (blocks, openAt dc o) = some (blocks ++ bs, openAt dc o') := by
  induction bs generalizing o blocks with
  | nil =>
    rw [List.flatMap_nil, List.nil_append] at hc
    have hle := hc.length_le
    rw [length_toBytes, List.length_drop] at hle
    obtain ⟨d, hpass, ⟨-, rfl⟩ | ⟨hlt, -⟩⟩ := readBlock_stop (leAt_eq_of_drop hc (by decide)) blocks
    · exact ⟨o + 4, by rw [loop_leave hpass, List.append_nil]⟩
    · omega
  | cons b bs ih =>
    obtain ⟨hb, hrest⟩ := List.forall_mem_cons.mp hbs
    rw [List.flatMap_cons, List.append_assoc] at hc
    have hpass := readBlock_written hb ((List.prefix_append _ _).trans hc) blocks
    obtain ⟨o', hloop⟩ := ih hrest (prefix_drop hc) (blocks ++ [b])
    exact ⟨o', by rw [loop_again hpass, hloop, List.append_assoc, List.singleton_append]⟩

/-! ## In `next()` -/

/-- A pass of the read loop leaves the blocks of its record in the current point. -/
theorem readPass_data {f : SyncFile} {blocks : List SyncPointData} {d : StreamableFile}
    (h : readData f.readPoint.1.2 f.data_file = some (blocks, d)) :
    ∃ g, f.readPass = some g ∧ g.current.data = blocks ∧ g.data_file = d := by
  have hkeep : f.readPoint.2.data_file = f.data_file := by
    unfold SyncFile.readPoint
    split_ifs <;> rfl
  unfold SyncFile.readPass
  dsimp only
  rw [hkeep, h]
  refine ⟨_, rfl, ?_⟩
  split_ifs <;> exact ⟨rfl, rfl⟩

/-- The data loop on a data file of any content, at any data offset, and the pass of the read loop whose
record has that offset. -/
theorem readData_spec (dc : List UInt8) (d : StreamableFile) (hon : On dc d) (heof : d.eof = false)
    (offset : UInt32) (hoffset : offset ≠ 0) :
    ∃ n blocks d', LeavesAfter readBlock n ([], d.seek offset.toNat) (blocks, d') ∧
      n ≤ dc.length - offset.toNat + 1 ∧
      (∀ f : SyncFile, f.data_file = d → f.readPoint.1.2 = offset →
        ∃ g, f.readPass = some g ∧ g.current.data = blocks ∧ g.data_file = d') ∧
      ∀ bs : List SyncPointData, (∀ b ∈ bs, b.Written) →
        bs.flatMap SyncPointData.encode ++ toBytes 4 0 <+: dc.drop offset.toNat →
        blocks = bs ∧ d'.eof = false := by
  have hseek : d.seek offset.toNat = openAt dc offset.toNat :=
    hon.seek (lt_trans offset.toNat_lt (by norm_num))
  obtain ⟨n, ⟨blocks, d'⟩, hleaves, hle⟩ := readBlock_leavesAfter dc offset.toNat
  have hloop := hleaves.loop_eq
  refine ⟨n, blocks, d', hseek ▸ hleaves, hle, fun f hd hf => ?_, fun bs hbs hc => ?_⟩
  · apply readPass_data
    rw [hf, hd, readData, if_pos (by simp [hoffset, heof]), hseek, hloop]
  · obtain ⟨o', hwritten⟩ := readBlocks_written hbs hc []
    rw [hloop, List.nil_append] at hwritten
    cases hwritten
    exact ⟨rfl, rfl⟩

/-- The list of one block, which begins at the offset 8 of its file. -/
def oneBlock : List UInt8 :=
  toBytes 8 SYNC_POINT_DATA_MAGIC.toNat ++ (SyncPointData.encode ⟨1, 0x1000, [0xaa]⟩ ++ toBytes 4 0)

theorem readData_oneBlock :
    ∃ n blocks d', LeavesAfter readBlock n ([], (openAt oneBlock 8).seek 8) (blocks, d') ∧
      n ≤ oneBlock.length - 8 + 1 ∧
      (∀ f : SyncFile, f.data_file = openAt oneBlock 8 → f.readPoint.1.2 = 8 →
        ∃ g, f.readPass = some g ∧ g.current.data = blocks ∧ g.data_file = d') ∧
      ∀ bs : List SyncPointData, (∀ b ∈ bs, b.Written) →
        bs.flatMap SyncPointData.encode ++ toBytes 4 0 <+: oneBlock.drop 8 →
        blocks = bs ∧ d'.eof = false :=
  readData_spec oneBlock (openAt oneBlock 8) (openAt_on _ _) rfl 8 (by decide)

end RvnSyncPoint
