import RvnSyncPoint.Readers
import RvnSyncPoint.Hardware.Iterate

/-!
# Readers of one hardware file

Any number of `hardware_file` objects on one file, on which `next`, `sync_with`, and `advance_to` with the
checkpoints of any of them are called in any order. Such a pool does what a pool of cursors on the list of
the accesses does (`cursor_simulates`). So the access that an object is at is the one that its
`position()` tells, and checkpoints lead back to the access at which they were taken, however the calls on
the objects were interleaved (`hardware_pool_sound`).
-/

namespace RvnSyncPoint

open LittleEndian StreamableFile HardwareFile
open Readers (Cursor Place Pool Reader Saved Source)

/-- The calls of a `hardware_file`. Its checkpoints have the offset `file_position()`. -/
def hardwareReader : Reader HardwareFile ℕ HardwareAccess where
  next := HardwareFile.next
  current := HardwareFile.current
  position := HardwareFile.position
  mark := HardwareFile.last_read_position
  advanceTo := HardwareFile.advanceTo
  syncWith := HardwareFile.syncWith

/-- An access that no file was read for. -/
def noAccess : HardwareAccess := ⟨0, 0, 0, 0, 0, []⟩

/-- A hardware file, as written. -/
structure HardwareLog where
  version : UInt32
  accesses : List HardwareAccess
  recorded : ∀ a ∈ accesses, a.Recorded
  length_lt : (fileOf version accesses).length < 2 ^ 63

namespace HardwareLog

/-- The bytes. -/
def content (L : HardwareLog) : List UInt8 := fileOf L.version L.accesses

/-- The offset of an access, or of the end. -/
def offset (L : HardwareLog) (k : ℕ) : ℕ := accessOffset L.accesses k

/-- The accesses, for a cursor. -/
def source (L : HardwareLog) : Source HardwareAccess where
  items := L.accesses
  valid := HardwareAccess.valid
  zero := noAccess
  blank a := { a with tsc := 0 }
  valid_items a ha := (L.recorded a ha).1
  zero_invalid := rfl
  blank_invalid _ := rfl
  length_lt := by
    have hlen := L.length_lt
    have hcount := length_le_encodeAll L.accesses
    rw [length_fileOf] at hlen
    omega

variable {L : HardwareLog} {f g : HardwareFile} {s t : Cursor HardwareAccess} {k : ℕ}

/-- The file of a reader, where its cursor is. -/
def FileAt (L : HardwareLog) (file : StreamableFile) : Place → Prop
  | .before k => k ≤ L.accesses.length ∧ file = openAt L.content (L.offset k)
  | .ended => ∃ o, file = endAt L.content o
  | .nowhere => ∃ o, file = failedAt L.content o

/-- The offset of a mark. Without a file to read, `pos()` is `-1`. -/
def OffsetOf (L : HardwareLog) (o : ℕ) : Option ℕ → Prop
  | some k => k ≤ L.accesses.length ∧ o = L.offset k
  | none => o = 2 ^ 64 - 1

/-- The reader is where the cursor is. -/
structure Tracks (L : HardwareLog) (f : HardwareFile) (s : Cursor HardwareAccess) : Prop where
  file : L.FileAt f.file s.place
  current : f.current = s.current
  mark : L.OffsetOf f.last_read_position s.mark
  position : f.position = s.position

theorem offset_lt (L : HardwareLog) (k : ℕ) : L.offset k < 2 ^ 63 :=
  (accessOffset_le L.version L.accesses k).trans_lt L.length_lt

theorem FileAt.pos {file : StreamableFile} {place : Place} (h : L.FileAt file place) :
    L.OffsetOf file.pos place.mark := by
  cases place with
  | before k =>
    obtain ⟨hk, rfl⟩ := h
    exact ⟨hk, openAt_pos ((L.offset_lt k).trans (by norm_num))⟩
  | ended =>
    obtain ⟨o, rfl⟩ := h
    exact endAt_pos _ _
  | nowhere =>
    obtain ⟨o, rfl⟩ := h
    exact failedAt_pos _ _

theorem FileAt.on {file : StreamableFile} {place : Place} (h : L.FileAt file place) :
    On L.content file := by
  cases place with
  | before k =>
    obtain ⟨-, rfl⟩ := h
    exact openAt_on _ _
  | ended =>
    obtain ⟨o, rfl⟩ := h
    exact endAt_on _ _
  | nowhere =>
    obtain ⟨o, rfl⟩ := h
    exact failedAt_on _ _

/-- Seeking to the offset of a mark. -/
theorem FileAt.seek {file : StreamableFile} {place : Place} (h : L.FileAt file place) {o : ℕ}
    {mark : Option ℕ} (ho : L.OffsetOf o mark) : L.FileAt (file.seek o) (.ofMark mark) := by
  cases mark with
  | some k =>
    obtain ⟨hk, rfl⟩ := ho
    exact ⟨hk, h.on.seek (L.offset_lt k)⟩
  | none =>
    subst ho
    exact h.on.seek_neg (by norm_num) (by norm_num)

/-- The access at an offset is read, as it was written. -/
theorem read_offset (hk : k < L.accesses.length) :
    extract readHardwareAccess (openAt L.content (L.offset k)) =
      (L.accesses[k], openAt L.content (L.offset (k + 1))) := by
  have hprefix : L.accesses[k].encode <+: L.content.drop (L.offset k) := by
    rw [content, offset, drop_accessOffset, List.drop_eq_getElem_cons hk, encodeAll_cons]
    exact List.prefix_append _ _
  rw [readHardwareAccess_reads _ (L.recorded _ (List.getElem_mem hk)).2 _ _ hprefix, offset, offset,
    accessOffset_succ hk]

/-- At the end, none is read. -/
theorem read_end : extract readHardwareAccess (openAt L.content (L.offset L.accesses.length)) =
    (noAccess, endAt L.content (L.offset L.accesses.length)) := by
  have hdrop := drop_accessOffset L.version L.accesses L.accesses.length
  rw [List.drop_length] at hdrop
  have hle : L.content.length ≤ L.offset L.accesses.length := List.drop_eq_nil_iff.mp hdrop
  have hend : Silent (endAt L.content (L.offset L.accesses.length)) := .of_eof rfl
  simp only [readHardwareAccess, extract_bind, readUInt64_end hle, readUInt64_silent hend,
    readUInt32_silent hend, readVector_silent hend, extract_pure]
  rfl

/-- `next()`. -/
theorem Tracks.next (h : L.Tracks f s) : L.Tracks f.next (s.next L.source) := by
  obtain ⟨hfile, hcurrent, -, hposition⟩ := h
  have hmark : L.OffsetOf f.next.last_read_position s.place.mark := by
    rw [next_last_read_position]
    exact FileAt.pos hfile
  unfold Cursor.next
  cases hplace : s.place with
  | before k =>
    rw [hplace] at hfile hmark
    obtain ⟨hk, hf⟩ := hfile
    have hnext := next_read (f := f) (by rw [hf]; rfl)
    rcases hk.lt_or_eq with hlt | rfl
    · have hitem : k < L.source.items.length := hlt
      rw [hf, read_offset hlt] at hnext
      simp only [dif_pos hitem]
      exact ⟨⟨hlt, by rw [hnext]⟩, by rw [hnext]; rfl, hmark, by rw [hnext, hposition]⟩
    · have hitem : ¬ L.accesses.length < L.source.items.length := Nat.lt_irrefl _
      rw [hf, read_end] at hnext
      simp only [dif_neg hitem]
      exact ⟨⟨_, by rw [hnext]⟩, by rw [hnext]; rfl, hmark, by rw [hnext, hposition]⟩
  | ended =>
    rw [hplace] at hfile hmark
    obtain ⟨o, hf⟩ := hfile
    have hnext := next_eof (f := f) (by rw [hf]; rfl)
    exact ⟨⟨o, by rw [hnext, hf]⟩, by rw [hnext, hcurrent]; rfl, hmark, by rw [hnext, hposition]⟩
  | nowhere =>
    rw [hplace] at hfile hmark
    obtain ⟨o, hf⟩ := hfile
    have hnext := next_read (f := f) (by rw [hf]; rfl)
    rw [hf, readHardwareAccess_silent (failedAt_silent _ _)] at hnext
    exact ⟨⟨o, by rw [hnext]⟩, by rw [hnext]; rfl, hmark, by rw [hnext, hposition]⟩

/-- `advance_to()`, to the offset of a mark. -/
theorem Tracks.advanceTo (h : L.Tracks f s) {o : ℕ} {mark : Option ℕ} (ho : L.OffsetOf o mark)
    (position : ℕ) : L.Tracks (f.advanceTo o position) (s.advanceTo L.source mark position) := by
  have hseek : L.FileAt (f.file.seek o) (.ofMark mark) := h.file.seek ho
  unfold HardwareFile.advanceTo Cursor.advanceTo
  dsimp only
  split_ifs with hzero
  · exact ⟨hseek, h.current, h.mark, rfl⟩
  · exact Tracks.next (f := { f with file := _, position := _ }) (s := { s with place := _, position := _ })
      ⟨hseek, h.current, h.mark, rfl⟩

/-- `sync_with()`. -/
theorem Tracks.syncWith (h : L.Tracks f s) (h' : L.Tracks g t) :
    L.Tracks (f.syncWith g) (s.syncWith t) :=
  ⟨h.file.seek (FileAt.pos h'.file), h'.current, h.mark, h'.position⟩

/-- Readers of the file do what cursors on its accesses do. -/
theorem cursor_simulates (L : HardwareLog) :
    hardwareReader.Simulates (Cursor.reader L.source) L.Tracks L.OffsetOf where
  current h := h.current
  position h := h.position
  mark h := h.mark
  next h := h.next
  advanceTo q h ho := h.advanceTo ho q
  syncWith h h' := h.syncWith h'

/-- A new reader, on which the file was loaded. -/
theorem tracks_load {opened : Bool} {memory : HardwareAccess}
    (h : (HardwareFile.new opened memory).load (some L.content) = .returned true f) :
    L.Tracks f (.start { memory with tsc := 0, data := [] }) := by
  rw [content, fileOf, load_header] at h
  cases h
  exact ⟨⟨Nat.zero_le _, rfl⟩, rfl, ⟨Nat.zero_le _, rfl⟩, rfl⟩

end HardwareLog

section

variable {ι : Type}

/-- New readers, on each of which the file was loaded. -/
def LoadedReaders (L : HardwareLog) (memory : ι → HardwareAccess) (fs : ι → HardwareFile) : Prop :=
  ∀ i, ∃ opened, (HardwareFile.new opened (memory i)).load (some L.content) = .returned true (fs i)

/-- The cursors for such readers. -/
def startCursors (memory : ι → HardwareAccess) : Pool ι (Cursor HardwareAccess) (Option ℕ) HardwareAccess :=
  { readers := fun i => .start { memory i with tsc := 0, data := [] } }

variable [DecidableEq ι] {L : HardwareLog} {memory : ι → HardwareAccess} {fs : ι → HardwareFile}

/-- After any calls, the pools are related. -/
theorem LoadedReaders.related (hfs : LoadedReaders L memory fs) (calls : List (Readers.Call ι)) :
    Pool.Related L.Tracks L.OffsetOf (hardwareReader.run calls { readers := fs })
      ((Cursor.reader L.source).run calls (startCursors memory)) := by
  refine L.cursor_simulates.run calls ⟨fun i => ?_, .nil, rfl⟩
  obtain ⟨opened, hload⟩ := hfs i
  exact HardwareLog.tracks_load hload

/-- Whatever calls are made on readers of one hardware file, in whatever order, each of them is at the
access and the count at which the cursor of a pool of cursors is after the same calls, and gives for its
file position the offset of the access that the cursor has marked. -/
theorem hardware_pool_cursors (L : HardwareLog) (memory : ι → HardwareAccess) (fs : ι → HardwareFile)
    (hfs : LoadedReaders L memory fs) (calls : List (Readers.Call ι)) (i : ι) :
    let f := (hardwareReader.run calls { readers := fs }).readers i
    let s := ((Cursor.reader L.source).run calls (startCursors memory)).readers i
    f.current = s.current ∧ f.position = s.position ∧ L.OffsetOf f.last_read_position s.mark := by
  have htracks := (hfs.related calls).readers i
  exact ⟨htracks.current, htracks.position, htracks.mark⟩

/-- The file of two writes. -/
def HardwareLog.twoWrites : HardwareLog where
  version := 0
  accesses := [oneByteWrite 256, oneByteWrite 512]
  recorded := by decide
  length_lt := by decide

/-- Two readers, on which it was loaded. -/
def twoReaders (_ : Bool) : HardwareFile :=
  (HardwareFile.new false (oneByteWrite 0)).loaded HardwareLog.twoWrites.content

theorem twoReaders_loaded : LoadedReaders HardwareLog.twoWrites (fun _ => oneByteWrite 0) twoReaders :=
  fun _ => ⟨false, load_header 0 (encodeAll [oneByteWrite 256, oneByteWrite 512]) _⟩

/-- The second reader takes over after the first write, and reads the second one. -/
theorem hardware_pool_cursors_two :
    ((hardwareReader.run [.next true, .syncWith false true, .next false]
      { readers := twoReaders }).readers false).current = oneByteWrite 512 :=
  (hardware_pool_cursors .twoWrites _ twoReaders twoReaders_loaded
    [.next true, .syncWith false true, .next false] false).1

/-- As long as checkpoints are only taken of readers that have read the access they are at themselves, every
reader that is at a valid access is at the one that its counter tells, after any calls on any readers in any
order; and every checkpoint takes every reader to the access at which it was taken. -/
theorem hardware_pool_sound (L : HardwareLog) (memory : ι → HardwareAccess) (fs : ι → HardwareFile)
    (hfs : LoadedReaders L memory fs) (calls : List (Readers.Call ι))
    (hcalls : hardwareReader.AllowsAll HardwareAccess.valid calls { readers := fs }) :
    let p := hardwareReader.run calls { readers := fs }
    (∀ i, (p.readers i).current.valid = true → 1 ≤ (p.readers i).position ∧
      L.accesses[(p.readers i).position - 1]? = some (p.readers i).current) ∧
    ∀ c ∈ p.saved, ∀ i, ((p.readers i).advanceTo c.mark c.position).current = c.item ∧
      ((p.readers i).advanceTo c.mark c.position).position = c.position := by
  intro p
  have hrelated : Pool.Related L.Tracks L.OffsetOf p _ := hfs.related calls
  have hstart : Readers.Consistent L.source (startCursors memory) :=
    ⟨fun i => Cursor.sound_start rfl, fun i _ hv => absurd hv Bool.false_ne_true, nofun⟩
  have hallowed : (Cursor.reader L.source).AllowsAll HardwareAccess.valid calls (startCursors memory) :=
    L.cursor_simulates.allowsAll calls (hfs.related []) hcalls
  have hconsistent := hstart.run calls hallowed
  constructor
  · intro i hv
    have htracks := hrelated.readers i
    have hitem := (hconsistent.sound i).item
    rw [← htracks.current, ← htracks.position] at hitem
    exact hitem hv
  · intro c hc i
    obtain ⟨n, hn⟩ := List.mem_iff_getElem?.mp hc
    have hsaved := Pool.Related.getElem? hrelated.saved n
    rw [hn] at hsaved
    generalize hd : ((Cursor.reader L.source).run calls (startCursors memory)).saved[n]? = d at hsaved
    cases hsaved with
    | @some _ d hcd =>
      have hcheck := hconsistent.saved d (List.mem_of_getElem? hd)
      have hadvance := (hrelated.readers i).advanceTo hcd.mark c.position
      rw [hcd.position, Cursor.advanceTo_checkpoint _ hcheck] at hadvance
      rw [hcd.position]
      exact ⟨hadvance.current.trans hcd.item.symm, hadvance.position⟩

/-- The checkpoint of the first reader takes the second one back to the first write. -/
theorem hardware_pool_sound_two :
    let p := hardwareReader.run [.next true, .save true, .syncWith false true, .next false]
      { readers := twoReaders }
    ∃ c ∈ p.saved, ((p.readers false).advanceTo c.mark c.position).current = oneByteWrite 256 := by
  intro p
  obtain ⟨opened, hload⟩ := twoReaders_loaded true
  have hcurrent : (twoReaders true).next.current = oneByteWrite 256 :=
    (HardwareLog.tracks_load hload).next.current.trans rfl
  have hvalid : (twoReaders true).next.current.valid = true := by
    rw [hcurrent]
    rfl
  have hallowed : hardwareReader.AllowsAll HardwareAccess.valid
      [.next true, .save true, .syncWith false true, .next false] { readers := twoReaders } := by
    simp [Reader.AllowsAll, Reader.Allows, Reader.step, Pool.move, hardwareReader, hvalid]
  have hsound := (hardware_pool_sound .twoWrites _ twoReaders twoReaders_loaded _ hallowed).2
  have hsaved : p.saved = [⟨(twoReaders true).next.last_read_position, (twoReaders true).next.position,
      (twoReaders true).next.current⟩] := by
    simp [p, Reader.run, Reader.step, Pool.move, hardwareReader]
  have hmem : _ ∈ p.saved := hsaved ▸ List.mem_singleton_self _
  obtain ⟨hrestored, -⟩ := hsound _ hmem false
  rw [hcurrent] at hrestored
  exact ⟨_, hmem, hrestored⟩

end

end RvnSyncPoint
