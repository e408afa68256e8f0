import RvnSyncPoint.Hardware.File

/-!
# Checkpoints of a hardware file

`file_position()` and `position()` are a checkpoint: `advance_to` with the two brings any reader of the
file to the state that they were taken in (`checkpoint_restores`). `sync_with` brings a reader to the
state of another one up to the offset of the last read, which it does not copy, and up to the end of
the file: a reader that has met it has no offset to seek to, and the seek fails (`syncWith_iff`).
-/

namespace RvnSyncPoint

open LittleEndian StreamableFile

namespace HardwareFile

/-- A reader in a state reached by `load` of the file, `next` and `advance_to` calls. -/
inductive Reached (file : Option (List UInt8)) : HardwareFile → Prop
  | load (f : HardwareFile) : Reached file (f.load file).state
  | next {f : HardwareFile} (h : Reached file f) : Reached file f.next
  | advanceTo {f : HardwareFile} (h : Reached file f) (file_position position : ℕ)
      (hfile : file_position < 2 ^ 64) (hpos : position < 2 ^ 64) :
      Reached file (f.advanceTo file_position position)

/-- A reader in a state reached by a `load` that returned true, and `next` calls. -/
inductive Scanned (c : List UInt8) : HardwareFile → Prop
  | load {f g : HardwareFile} (h : f.load (some c) = .returned true g) : Scanned c g
  | next {f : HardwareFile} (h : Scanned c f) : Scanned c f.next

/-! ## The states of a reader -/

/-- The states of an open file: at an offset, at its end, or failed by a seek before its start. -/
inductive Standing (c : List UInt8) : StreamableFile → Prop
  | openAt {o : ℕ} (ho : o < 2 ^ 63) : Standing c (openAt c o)
  | endAt (o : ℕ) : Standing c (endAt c o)
  | failedAt (o : ℕ) : Standing c (failedAt c o)

section

variable {c : List UInt8} {f g : HardwareFile} {file : Option (List UInt8)}

theorem Standing.on {f : StreamableFile} (h : Standing c f) : On c f := by
  cases h with
  | openAt ho => exact openAt_on _ _
  | endAt o => exact endAt_on _ _
  | failedAt o => exact failedAt_on _ _

theorem Standing.cases {f : StreamableFile} (h : Standing c f) :
    (∃ o, o < 2 ^ 63 ∧ f = StreamableFile.openAt c o) ∨ (∃ o, f = StreamableFile.endAt c o) ∨
      ∃ o, f = StreamableFile.failedAt c o := by
  cases h with
  | openAt ho => exact .inl ⟨_, ho, rfl⟩
  | endAt o => exact .inr (.inl ⟨o, rfl⟩)
  | failedAt o => exact .inr (.inr ⟨o, rfl⟩)

/-- Seeking takes an open file from one of its states to another. -/
theorem Standing.seek {f : StreamableFile} (h : Standing c f) {pos : ℕ} (hpos : pos < 2 ^ 64) :
    Standing c (f.seek pos) := by
  rcases Nat.lt_or_ge pos (2 ^ 63) with hlt | hge
  · rw [h.on.seek hlt]
    exact .openAt hlt
  · obtain ⟨o, ho⟩ := h.on.seek_neg hge hpos
    rw [ho]
    exact .failedAt o

/-- So does reading an access. -/
theorem Standing.read (hlen : c.length < 2 ^ 63) {f : StreamableFile} (h : Standing c f) :
    Standing c (extract readHardwareAccess f).2 := by
  cases h with
  | @openAt o ho =>
    rcases Nat.lt_or_ge c.length o with hpast | hle
    · rw [readHardwareAccess_past hpast.le]
      exact .endAt o
    · obtain ⟨size, ⟨heq, hle'⟩ | ⟨⟨e, heq⟩, -⟩⟩ := readHardwareAccess_after (.inl ⟨rfl, hle⟩)
      · rw [heq]
        exact .openAt (hle'.trans_lt hlen)
      · rw [heq]
        exact .endAt e
  | endAt o =>
    rw [readHardwareAccess_silent (.of_eof rfl)]
    exact .endAt o
  | failedAt o =>
    rw [readHardwareAccess_silent (failedAt_silent c o)]
    exact .failedAt o

/-- `next()` takes an open file from one of its states to another. -/
theorem Standing.next (hlen : c.length < 2 ^ 63) (h : Standing c f.file) : Standing c f.next.file := by
  cases heof : f.file.eof with
  | true => rw [next_eof heof]; exact h
  | false => rw [next_read heof]; exact h.read hlen

/-- `advance_to()` begins with a seek, and ends with `next()` unless the position is zero. -/
theorem advanceTo_zero (file_position : ℕ) (f : HardwareFile) :
    f.advanceTo file_position 0 = { f with file := f.file.seek file_position, position := 0 } := rfl

theorem advanceTo_pos {position : ℕ} (h : position ≠ 0) (file_position : ℕ) (f : HardwareFile) :
    f.advanceTo file_position position =
      next { f with file := f.file.seek file_position, position := position - 1 } := by
  rw [advanceTo, if_neg h]

theorem next_shut (h : Shut f.file) : Shut f.next.file := by
  rw [next_eof h.eof]
  exact h

/-- The file of a reader: open, if `load` accepts it, and closed if it does not. -/
inductive StandsOn : Option (List UInt8) → HardwareFile → Prop
  | accepted {c : List UInt8} {f : HardwareFile} (hc : Accepted c) (h : Standing c f.file) :
    StandsOn (some c) f
  | refused {file : Option (List UInt8)} {f : HardwareFile} (hfile : ∀ c, file = some c → ¬ Accepted c)
    (h : Shut f.file) : StandsOn file f

/-- The file of a reader in every state that is reached. -/
theorem Reached.stands (hlen : ∀ c, file = some c → c.length < 2 ^ 63) (h : Reached file f) :
    StandsOn file f := by
  induction h with
  | load f =>
    by_cases hc : ∃ c, file = some c ∧ Accepted c
    · -- An accepted file is open after its header, and any other one is closed.
      obtain ⟨c, rfl, hc⟩ := hc
      rw [load_accepted hc]
      exact .accepted hc (.openAt (by norm_num))
    · have hrefused : ∀ c, file = some c → ¬ Accepted c := fun c heq hacc => hc ⟨c, heq, hacc⟩
      rcases load_refused hrefused f with ⟨g, hload, hshut⟩ | ⟨err, g, hload, hshut⟩
      · rw [hload]
        exact .refused hrefused hshut
      · rw [hload]
        exact .refused hrefused hshut
  | next h ih =>
    cases ih with
    | accepted hc hstand => exact .accepted hc (hstand.next (hlen _ rfl))
    | refused hfile hshut => exact .refused hfile (next_shut hshut)
  | @advanceTo f h file_position position hfp hpos ih =>
    by_cases hzero : position = 0
    · subst hzero
      rw [advanceTo_zero]
      cases ih with
      | accepted hc hstand => exact .accepted hc (hstand.seek hfp)
      | refused hfile hshut => exact .refused hfile (hshut.seek file_position)
    · rw [advanceTo_pos hzero]
      cases ih with
      | @accepted c _ hc hstand =>
        have hseek : Standing c (f.file.seek file_position) := hstand.seek hfp
        exact .accepted hc (Standing.next (f := { f with file := _, position := _ }) (hlen _ rfl) hseek)
      | refused hfile hshut =>
        have hseek : Shut (f.file.seek file_position) := hshut.seek file_position
        exact .refused hfile (next_shut (f := { f with file := _, position := _ }) hseek)

/-! ## The checkpoint -/

/-- A reader that scans a file is after the bytes that its reads asked for, and has read no more
accesses than bytes. -/
theorem Scanned.after (h : Scanned c f) :
    Accepted c ∧ ∃ o, After c o f.file ∧ f.position ≤ o := by
  induction h with
  | @load f g hload =>
    have hc : Accepted c := by
      by_contra hc
      have hrefused : ∀ c', some c = some c' → ¬ Accepted c' := fun c' heq => Option.some.inj heq ▸ hc
      rcases load_refused hrefused f with ⟨g', h, -⟩ | ⟨err, g', h, -⟩
      · rw [h] at hload; cases hload
      · rw [h] at hload; cases hload
    rw [load_accepted hc] at hload
    cases hload
    exact ⟨hc, 12, .inl ⟨rfl, hc.1⟩, Nat.zero_le _⟩
  | @next f h ih =>
    obtain ⟨hc, o, hafter, hpos⟩ := ih
    refine ⟨hc, ?_⟩
    cases heof : f.file.eof with
    | true => rw [next_eof heof]; exact ⟨o, hafter, hpos⟩
    | false =>
      obtain ⟨size, hnext⟩ := readHardwareAccess_after hafter
      rw [next_read heof]
      refine ⟨o + 44 + size, hnext, (Nat.mod_le _ _).trans ?_⟩
      omega

/-- `advance_to` with the checkpoint that was taken after a valid access was read brings every reader
of the file to the state in which it was taken. -/
theorem checkpoint_restores (c : List UInt8) (hlen : c.length < 2 ^ 63) (s t : HardwareFile)
    (hs : Scanned c s) (hvalid : s.next.current.valid = true) (ht : Reached (some c) t) :
    t.advanceTo s.next.last_read_position s.next.position = s.next := by
  obtain ⟨hc, o, hafter, hpos⟩ := hs.after
  have heof : s.file.eof = false := by
    by_contra heof
    rw [next_eof (Bool.eq_true_of_not_eq_false heof)] at hvalid
    cases hvalid
  -- The access was read at the offset `o`, which the checkpoint holds.
  obtain ⟨hfile, hle⟩ : s.file = openAt c o ∧ o ≤ c.length := by
    rcases hafter with h | ⟨⟨e, h⟩, -⟩
    · exact h
    · rw [h] at heof
      cases heof
  have hcount : (s.position + 1) % 2 ^ 64 = s.position + 1 := Nat.mod_eq_of_lt (by omega)
  have hon : On c t.file := by
    cases ht.stands (fun c' heq => by cases heq; exact hlen) with
    | accepted _ hstand => exact hstand.on
    | refused hfile _ => exact (hfile c rfl hc).elim
  have hseek : t.file.seek o = openAt c o := hon.seek (hle.trans_lt hlen)
  have hpos64 : (openAt c o).pos = o := openAt_pos (by omega)
  rw [next_read heof, hfile, hpos64, hcount, advanceTo_pos (Nat.add_one_ne_zero _),
    next_read (by rw [hseek]; rfl)]
  simp only [hseek, hpos64, Nat.add_sub_cancel, hcount]

/-- A file of two writes. -/
def twoWrites : List UInt8 := header 0 ++ encodeAll [oneByteWrite 256, oneByteWrite 512]

theorem twoWrites_length : twoWrites.length < 2 ^ 63 := by decide

/-- A reader of the file of two writes, at its header. -/
def twoWritesReader : HardwareFile := (HardwareFile.new false (oneByteWrite 0)).loaded twoWrites

theorem twoWritesReader_scanned : Scanned twoWrites twoWritesReader :=
  .load (load_header 0 _ (.new false (oneByteWrite 0)))

theorem twoWritesReader_reached : Reached (some twoWrites) twoWritesReader := by
  have h : Reached (some twoWrites) _ := .load (.new false (oneByteWrite 0))
  rwa [twoWrites, load_header] at h

/-- The checkpoint of the second write brings a reader that is at the header to it. -/
theorem checkpoint_restores_twoWrites :
    twoWritesReader.advanceTo twoWritesReader.next.next.last_read_position
      twoWritesReader.next.next.position = twoWritesReader.next.next := by
  obtain ⟨g, hscan⟩ := scan_encodeAll 0 (.new false (oneByteWrite 0))
    (show ∀ a ∈ [oneByteWrite 256, oneByteWrite 512], a.Recorded by decide)
  exact checkpoint_restores twoWrites twoWrites_length twoWritesReader.next twoWritesReader
    twoWritesReader_scanned.next hscan.head.2.2.head.2.1 twoWritesReader_reached

/-! ## `sync_with` -/

/-- What a client sees of a reader. -/
def observed (f : HardwareFile) : HardwareAccess × ℕ × ℕ :=
  (f.current, f.position, f.last_read_position)

/-- A client cannot tell the two readers of the file apart: neither by what they are at now and after
any number of `next` calls, nor by what their checkpoints restore. -/
def Indistinguishable (file : Option (List UInt8)) (f g : HardwareFile) : Prop :=
  (∀ n, (HardwareFile.next^[n] f).observed = (HardwareFile.next^[n] g).observed) ∧
    ∀ r, Reached file r → (r.advanceTo f.last_read_position f.position).current =
      (r.advanceTo g.last_read_position g.position).current

/-- Reads of neither file do anything, and they have the same offset. -/
structure BothSilent (f g : HardwareFile) : Prop where
  left : Silent f.file
  right : Silent g.file
  eof : f.file.eof = g.file.eof
  pos : f.file.pos = g.file.pos
  observed : f.observed = g.observed

theorem BothSilent.next (h : BothSilent f g) : BothSilent f.next g.next := by
  obtain ⟨hleft, hright, heof, hpos, hobserved⟩ := h
  obtain ⟨hcurrent, hposition, hlast⟩ : f.current = g.current ∧ f.position = g.position ∧
    f.last_read_position = g.last_read_position := by simpa [HardwareFile.observed] using hobserved
  cases hg : g.file.eof with
  | true =>
    rw [next_eof hg, next_eof (heof.trans hg)]
    exact ⟨hleft, hright, heof, hpos, by simp [HardwareFile.observed, hpos, hcurrent, hposition]⟩
  | false =>
    rw [next_read hg, next_read (heof.trans hg), readHardwareAccess_silent hleft,
      readHardwareAccess_silent hright]
    exact ⟨hleft, hright, heof, hpos, by simp [HardwareFile.observed, hpos, hposition]⟩

theorem BothSilent.iterate (h : BothSilent f g) (n : ℕ) :
    BothSilent (HardwareFile.next^[n] f) (HardwareFile.next^[n] g) := by
  induction n with
  | zero => exact h
  | succ n ih =>
    rw [Function.iterate_succ_apply', Function.iterate_succ_apply']
    exact ih.next

theorem BothSilent.indistinguishable (h : BothSilent f g) : Indistinguishable file f g := by
  refine ⟨fun n => (h.iterate n).observed, fun r _ => ?_⟩
  obtain ⟨-, hposition, hlast⟩ : f.current = g.current ∧ f.position = g.position ∧
    f.last_read_position = g.last_read_position := by
    simpa [HardwareFile.observed] using h.observed
  rw [hposition, hlast]

/-- `sync_with` leaves the offset of the last read as it is. -/
theorem Indistinguishable.last_read_position (h : Indistinguishable file (f.syncWith g) g) :
    f.last_read_position = g.last_read_position :=
  congrArg (fun o => o.2.2) (h.1 0)

/-- On a file that `load` did not accept, both readers stay as they are. -/
theorem syncWith_shut (hf : Shut f.file) (hg : Shut g.file)
    (h : f.last_read_position = g.last_read_position) : Indistinguishable file (f.syncWith g) g := by
  have hseek := hf.seek g.file.pos
  exact BothSilent.indistinguishable ⟨.of_eof hseek.eof, .of_eof hg.eof,
    hseek.eof.trans hg.eof.symm, hseek.pos.trans hg.pos.symm, by simp [observed, syncWith, h]⟩

/-- At an offset of the file, `sync_with` makes the two readers equal. -/
theorem syncWith_openAt {o : ℕ} (hf : On c f.file) (ho : o < 2 ^ 63) (hg : g.file = openAt c o)
    (h : f.last_read_position = g.last_read_position) : f.syncWith g = g := by
  have hseek : f.file.seek g.file.pos = g.file := by
    rw [hg, openAt_pos (by omega), hf.seek ho]
  rw [syncWith, hseek, h]

/-- At the end of the file the offset is `-1`. The seek to it fails, and the reader counts an access that
the other does not. -/
theorem syncWith_endAt {o : ℕ} (hf : On c f.file) (hg : g.file = endAt c o) :
    ¬ Indistinguishable file (f.syncWith g) g := by
  intro h
  have hneg : 2 ^ 63 ≤ g.file.pos ∧ g.file.pos < 2 ^ 64 := by
    rw [hg, endAt_pos]
    norm_num
  obtain ⟨o', ho'⟩ := hf.seek_neg hneg.1 hneg.2
  have hposition := congrArg (fun o => o.2.1) (h.1 1)
  simp only [Function.iterate_one, observed] at hposition
  rw [next_read (by rw [syncWith, ho']; rfl), next_eof (by rw [hg]; rfl)] at hposition
  simp only [syncWith] at hposition
  omega

/-- After a seek that failed, both readers have failed, and read zeros. -/
theorem syncWith_failedAt {o : ℕ} (hf : On c f.file) (hg : g.file = failedAt c o)
    (h : f.last_read_position = g.last_read_position) : Indistinguishable file (f.syncWith g) g := by
  have hneg : 2 ^ 63 ≤ g.file.pos ∧ g.file.pos < 2 ^ 64 := by
    rw [hg, failedAt_pos]
    norm_num
  obtain ⟨o', ho'⟩ := hf.seek_neg hneg.1 hneg.2
  apply BothSilent.indistinguishable
  constructor
  · rw [syncWith, ho']
    exact failedAt_silent c o'
  · rw [hg]
    exact failedAt_silent c o
  · rw [syncWith, ho', hg]
    rfl
  · rw [syncWith, ho', hg, failedAt_pos, failedAt_pos]
  · rw [observed, observed, syncWith, h]

/-- `sync_with` makes a reader `f` of the file indistinguishable from a reader `g` exactly when the
last reads of the two were at the same offset, and `g` has not met the end of an open file. -/
theorem syncWith_iff (file : Option (List UInt8)) (hlen : ∀ c, file = some c → c.length < 2 ^ 63)
    (f g : HardwareFile) (hf : Reached file f) (hg : Reached file g) :
    Indistinguishable file (f.syncWith g) g ↔
      f.last_read_position = g.last_read_position ∧
        (g.file.eof = true → g.file.in_file.is_open = false) := by
  -- Readers of the same file have it open, or both have it closed.
  cases hg.stands hlen with
  | refused hfile hshut =>
    have hfshut : Shut f.file := by
      cases hf.stands hlen with
      | accepted hc _ => exact (hfile _ rfl hc).elim
      | refused _ hfshut => exact hfshut
    constructor
    · exact fun h => ⟨h.last_read_position, fun _ => hshut.is_open⟩
    · exact fun ⟨h, _⟩ => syncWith_shut hfshut hshut h
  | @accepted c _ hc hstand =>
    have hon : On c f.file := by
      cases hf.stands hlen with
      | accepted _ hstand => exact hstand.on
      | refused hfile _ => exact (hfile c rfl hc).elim
    -- The other reader stands at an offset, has met the end, or has failed; only the end is lost.
    rcases hstand.cases with ⟨o, ho, hfile⟩ | ⟨o, hfile⟩ | ⟨o, hfile⟩
    · have heof : ¬ g.file.eof = true := by
        rw [hfile]
        exact Bool.false_ne_true
      constructor
      · exact fun h => ⟨h.last_read_position, fun hend => absurd hend heof⟩
      · rintro ⟨h, -⟩
        rw [syncWith_openAt hon ho hfile h]
        exact ⟨fun _ => rfl, fun _ _ => rfl⟩
    · constructor
      · exact fun h => absurd h (syncWith_endAt hon hfile)
      · rintro ⟨-, hopen⟩
        rw [hfile] at hopen
        cases hopen rfl
    · have heof : ¬ g.file.eof = true := by
        rw [hfile]
        exact Bool.false_ne_true
      constructor
      · exact fun h => ⟨h.last_read_position, fun hend => absurd hend heof⟩
      · exact fun ⟨h, _⟩ => syncWith_failedAt hon hfile h

/-- The first write ends at the offset 57. -/
theorem twoWritesReader_next : twoWritesReader.next.file = openAt twoWrites 57 := by
  have hdrop : twoWrites.drop 12 = encodeAll [oneByteWrite 256, oneByteWrite 512] := by
    rw [twoWrites, ← length_header 0, List.drop_left]
  have hread := readHardwareAccess_reads (oneByteWrite 256) (by decide) twoWrites 12
    (hdrop ▸ List.prefix_append _ _)
  have hlength : (oneByteWrite 256).encode.length = 45 := HardwareAccess.length_encode _
  have hfile : twoWritesReader.file = openAt twoWrites 12 := rfl
  rw [hlength] at hread
  rw [next_read (by rw [hfile]; rfl), hfile, hread]

/-- A reader at the header is synchronised with one that has read the first write. -/
theorem syncWith_twoWrites :
    Indistinguishable (some twoWrites) (twoWritesReader.syncWith twoWritesReader.next)
      twoWritesReader.next :=
  (syncWith_iff (some twoWrites) (fun c h => Option.some.inj h ▸ twoWrites_length) twoWritesReader
    twoWritesReader.next twoWritesReader_reached twoWritesReader_reached.next).mpr <| by
    constructor
    · rw [next_last_read_position]
      rfl
    · intro h
      rw [twoWritesReader_next] at h
      cases h

/-- With one that has read the second write too, it is not. -/
theorem not_syncWith : ¬ ∀ (file : Option (List UInt8)) (f g : HardwareFile),
    (∀ c, file = some c → c.length < 2 ^ 63) → Reached file f → Reached file g →
      Indistinguishable file (f.syncWith g) g := by
  intro halways
  have h := halways (some twoWrites) twoWritesReader twoWritesReader.next.next
    (fun c h => Option.some.inj h ▸ twoWrites_length) twoWritesReader_reached
    twoWritesReader_reached.next.next
  have hlast := h.last_read_position
  rw [next_last_read_position, twoWritesReader_next] at hlast
  exact absurd hlast (by decide)

end

end HardwareFile

end RvnSyncPoint
