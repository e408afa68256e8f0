import RvnSyncPoint.Sync.DataLoop
import RvnSyncPoint.Sync.DumpData
import RvnSyncPoint.Sync.PlayRuns

/-!
# Writing logs

The two files of a log, as a recorder lays them out: in the data file the lists of blocks, one after the
other, each closed by an end marker; in the sync file the records, each with the offset of its own list,
or zero if it has none. What is read back from them is the log (`Log.log_written`), so that a reader of the
two files plays it (`plays_written`) and `dump_sync_points_data` prints it (`dumpSyncPointsData_written`).
-/

namespace RvnSyncPoint

open LittleEndian Loop Printing Refinement StreamableFile

/-- The bytes of a list of blocks, with the end marker. -/
def SyncPointData.encodeList (bs : List SyncPointData) : List UInt8 :=
  bs.flatMap SyncPointData.encode ++ toBytes 4 0

namespace Log

/-- The lists of blocks, one after the other. An entry without blocks has no list. -/
def blocks (log : Log) : List UInt8 :=
  log.flatMap fun x => if x.2 = [] then [] else SyncPointData.encodeList x.2

/-- The records, with the offsets of their lists if the first list is at the offset `o`. -/
def place : ℕ → Log → List SyncRecord
  | _, [] => []
  | o, (r, bs) :: log =>
    if bs = [] then r :: place o log
    else { r with data_offset := .ofNat o } ::
      place (o + (SyncPointData.encodeList bs).length) log

/-- The log can be written: no TSC is zero, the data offsets are left to the writer, the lengths of the
blocks are 64-bit numbers, and every offset of the data file is a 32-bit number. -/
structure Writable (log : Log) : Prop where
  tsc : ∀ x ∈ log, x.1.tsc ≠ 0
  bare : ∀ x ∈ log, x.1.bare = x.1
  written : ∀ x ∈ log, ∀ b ∈ x.2, b.Written
  length : log.length ≤ 2 ^ 32
  size : (dataFile log.blocks).length ≤ 2 ^ 32

section

variable {log : Log} {dc : List UInt8}

theorem length_place (log : Log) : ∀ o, (log.place o).length = log.length := by
  induction log with
  | nil => exact fun _ => rfl
  | cons x log ih =>
    intro o
    rw [place]
    split_ifs <;> simp [ih]

theorem place_tsc (log : Log) (h : ∀ x ∈ log, x.1.tsc ≠ 0) : ∀ o, ∀ r ∈ log.place o, r.tsc ≠ 0 := by
  induction log with
  | nil => exact fun _ _ hr => nomatch hr
  | cons x log ih =>
    obtain ⟨hx, hlog⟩ := List.forall_mem_cons.mp h
    intro o
    rw [place]
    split_ifs
    · exact List.forall_mem_cons.mpr ⟨hx, ih hlog o⟩
    · exact List.forall_mem_cons.mpr ⟨hx, ih hlog _⟩

/-- The sync file of the log. -/
def recording (log : Log) (h : log.Writable) : Recording :=
  .ofRecords (log.place 8) (log.place_tsc h.tsc 8) (by rw [length_place]; exact h.length)

/-- The blocks of a list that was written are read at its offset, and end inside the file. -/
theorem blocksAt_written {bs : List SyncPointData} (hbs : ∀ b ∈ bs, b.Written) {o : ℕ} (h0 : 0 < o)
    (hdc : dc.length ≤ 2 ^ 32) (hc : SyncPointData.encodeList bs <+: dc.drop o) :
    blocksAt dc (.ofNat o) = bs ∧ Terminated dc (UInt32.ofNat o).toNat := by
  have hlt : o < 2 ^ 32 := by
    have hle := hc.length_le
    rw [SyncPointData.encodeList, List.length_append, length_toBytes, List.length_drop] at hle
    omega
  have hoffset : (UInt32.ofNat o).toNat = o := UInt32.toNat_ofNat_of_lt' hlt
  have hne : UInt32.ofNat o ≠ 0 := by
    intro h
    rw [h] at hoffset
    exact absurd hoffset.symm (by simpa using h0.ne')
  obtain ⟨o', hloop⟩ := readBlocks_written hbs hc []
  have hseek : (openAt dc 8).seek (UInt32.ofNat o).toNat = openAt dc o := by
    rw [hoffset]
    exact (openAt_on dc 8).seek (by omega)
  have hdata : dataAt (.ofNat o) (openAt dc 8) = (bs, openAt dc o') := by
    rw [dataAt, readData, if_pos (by simp [hne]), hseek, hloop]
    rfl
  refine ⟨by rw [blocksAt, hdata], ?_⟩
  rcases (dataAt_openAt dc (.ofNat o) 8).2 with ⟨h, -⟩ | ⟨-, heof⟩
  · exact h.resolve_left hne
  · rw [hdata] at heof
    cases heof

/-- What is read back of the records that were placed. -/
theorem place_read (hdc : dc.length ≤ 2 ^ 32) (log : Log) : ∀ o, 0 < o →
    (∀ x ∈ log, x.1.bare = x.1) → (∀ x ∈ log, ∀ b ∈ x.2, b.Written) → log.blocks <+: dc.drop o →
    (log.place o).map (fun r => (r.bare, blocksAt dc r.data_offset)) = log ∧
      ∀ r ∈ log.place o, r.data_offset = 0 ∨ Terminated dc r.data_offset.toNat := by
  induction log with
  | nil => exact fun _ _ _ _ _ => ⟨rfl, fun _ hr => nomatch hr⟩
  | cons x log ih =>
    obtain ⟨r, bs⟩ := x
    intro o h0 hbare hwritten hc
    obtain ⟨hr, hbare⟩ := List.forall_mem_cons.mp hbare
    obtain ⟨hbs, hwritten⟩ := List.forall_mem_cons.mp hwritten
    rw [blocks, List.flatMap_cons] at hc
    rw [place]
    split_ifs at hc ⊢ with hnil
    · obtain ⟨hread, hend⟩ := ih o h0 hbare hwritten hc
      have hzero : r.data_offset = 0 := congrArg SyncRecord.data_offset hr.symm
      have hnone : blocksAt dc r.data_offset = bs := by
        rw [hnil]
        exact (blocksAt_eq_nil _).mpr (.inl hzero)
      refine ⟨?_, List.forall_mem_cons.mpr ⟨.inl hzero, hend⟩⟩
      rw [List.map_cons, hread, hnone, hr]
    · obtain ⟨hread, hend⟩ := ih _ (by omega) hbare hwritten (prefix_drop hc)
      obtain ⟨hblocks, hterminated⟩ := blocksAt_written hbs h0 hdc ((List.prefix_append _ _).trans hc)
      have hsame : ({ r with data_offset := .ofNat o } : SyncRecord).bare = r := hr
      refine ⟨?_, List.forall_mem_cons.mpr ⟨.inr hterminated, hend⟩⟩
      rw [List.map_cons, hread, hblocks, hsame]

/-- What is read back of the two files is the log. -/
theorem log_written (h : log.Writable) :
    (log.recording h).log (some (dataFile log.blocks)) = log ∧
      (log.recording h).DataSafe (some (dataFile log.blocks)) := by
  have hdrop : (dataFile log.blocks).drop 8 = log.blocks :=
    List.drop_left' (length_toBytes 8 SYNC_POINT_DATA_MAGIC.toNat)
  obtain ⟨hread, hend⟩ := place_read h.size log 8 (by decide) h.bare h.written (by rw [hdrop])
  refine ⟨?_, ?_, ?_⟩
  · rw [Recording.log, recording, Recording.ofRecords_recordsFrom]
    exact hread
  · rintro dc ⟨⟩
    exact List.prefix_append _ _
  · rintro dc ⟨⟩
    refine .inl fun k h1 hk => ?_
    obtain ⟨i, rfl⟩ : ∃ i, k = i + 1 := ⟨k - 1, by omega⟩
    rw [recording, Recording.ofRecords_record hk]
    exact hend _ (List.getElem_mem _)

end

end Log

/-- A log that was written is played back: in every sequence of public calls that stays in the domain of
the player, a new reader on which the two files were loaded gives what the player of the log gives, call
for call. -/
theorem plays_written (log : Log) (h : log.Writable) (u : Uninitialised) (cs : List Call)
    (hcs : Within (Player.answer log) (Player.Allows log) cs {}) :
    ∃ f, (SyncFile.new u).load (some (log.recording h).content) (some (dataFile log.blocks)) =
        .returned true f ∧
      Call.results cs f = answers (Player.answer log) cs {} := by
  obtain ⟨hlog, hsafe⟩ := Log.log_written h
  obtain ⟨D, f, hload, hD, hplays⟩ := Recording.exists_plays hsafe u
  rw [hlog] at hD
  exact ⟨f, hload, by rw [Call.results_eq, hD.simulates.answers_eq cs f {} hplays hcs]⟩

/-- A VMEnter with a block, and a VMExit without. -/
def twoEntries : Log :=
  [(.simple 0xff 1 0 0, [⟨memoryLogical, 0x1000, [0xaa]⟩]), (.simple 0 16 0 0, [])]

theorem twoEntries_writable : twoEntries.Writable where
  tsc := by decide
  bare := by decide
  written := by
    have hb : SyncPointData.Written ⟨memoryLogical, 0x1000, [0xaa]⟩ := ⟨by decide, by decide⟩
    simpa [twoEntries] using hb
  length := by decide
  size := by decide

/-- The two entries are read, and the block once more after a seek. -/
theorem plays_written_two : ∃ f,
    (SyncFile.new ⟨false, false, 0, 0, fun _ => (0, .VMENTER)⟩).load
        (some (twoEntries.recording twoEntries_writable).content) (some (dataFile twoEntries.blocks)) =
        .returned true f ∧
      Call.results [.next, .next, .next, .seekFromEnd 1, .next] f =
        answers (Player.answer twoEntries) [.next, .next, .next, .seekFromEnd 1, .next] {} := by
  refine plays_written twoEntries twoEntries_writable _ _ ?_
  refine ⟨trivial, fun _ _ => ⟨trivial, fun _ _ => ⟨trivial, fun _ _ => ⟨?_, fun _ _ => ?_⟩⟩⟩⟩
  · exact show 1 < 2 by decide
  · exact ⟨trivial, fun _ _ => trivial⟩

/-- `dump_sync_points_data` prints the log that was written: of each entry that is not identical to the
point before it, the timestamp and the blocks. -/
theorem dumpSyncPointsData_written (log : Log) (h : log.Writable) (u : Uninitialised) :
    ∃ out, dumpSyncPointsData u (some (log.recording h).content) (some (dataFile log.blocks)) =
        some (.returned, out) ∧
      out.text = dataText .dec ((Log.tape 0 {} log).map Prod.snd) := by
  obtain ⟨hlog, hsafe⟩ := Log.log_written h
  obtain ⟨D, f, hload, hD, hplays⟩ := Recording.exists_plays hsafe u
  obtain ⟨g, hload', -, htape⟩ := load_attached (log.recording h) hsafe.1 u
  rw [hload] at hload'
  cases hload'
  rw [hlog] at hD
  obtain ⟨out, hout, htext⟩ := dumpSyncPointsData_eq (log.recording h) hsafe.1 u
  refine ⟨out, hout, ?_⟩
  rw [htext, ← htape, hplays.tape hD]
  rfl

theorem dumpSyncPointsData_written_two : ∃ out,
    dumpSyncPointsData ⟨false, false, 0, 0, fun _ => (0, .VMENTER)⟩
        (some (twoEntries.recording twoEntries_writable).content) (some (dataFile twoEntries.blocks)) =
        some (.returned, out) ∧
      out.text = dataText .dec ((Log.tape 0 {} twoEntries).map Prod.snd) :=
  dumpSyncPointsData_written twoEntries twoEntries_writable _

-- The second timestamp, which is 16, is printed after a block.
example : dataText .dec ((Log.tape 0 {} twoEntries).map Prod.snd) =
    "TSC=1\n LOGICAL:1000\n       0: aa \nTSC=10\n".toList := by decide

end RvnSyncPoint
