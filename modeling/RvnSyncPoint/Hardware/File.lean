import RvnSyncPoint.Loop
import RvnSyncPoint.RuntimeError
import RvnSyncPoint.Hardware.Access

/-!
# `hardware_file`

The reader of hardware files (`include/hardware_file.h`, `src/hardware_file.cpp`), and the accesses
that the loop `while (file.next().valid())` goes through. The loop ends on every file
(`exists_scan`), and on a header followed by written accesses it goes through these
(`Scan.of_encoded`).
-/

namespace RvnSyncPoint

open LittleEndian Loop StreamableFile

def HARDWARE_FILE_MAGIC : UInt64 := 0x68636e79734e5652

/-- A hardware file reader. -/
structure HardwareFile where
  file : StreamableFile
  current : HardwareAccess
  /-- The offset of the last access read. -/
  last_read_position : ℕ
  /-- The number of accesses read. -/
  position : ℕ
deriving DecidableEq

namespace HardwareFile

/-- The constructor, which leaves `opened_` with whatever value `opened` its memory holds, and the
fields of `current_` other than the timestamp and the data with those of `memory`. -/
def new (opened : Bool) (memory : HardwareAccess) : HardwareFile :=
  { file := .new opened, current := { memory with tsc := 0, data := [] }, last_read_position := 0,
    position := 0 }

/-- `load()` of a file with the given bytes, or of one that cannot be opened. -/
def load (file : Option (List UInt8)) (f : HardwareFile) : Outcome HardwareFile Bool :=
  let f := { f with file := f.file.load file, position := 0 }
  if f.file.eof || !f.file.opened then .returned false f
  else
    let (magic, file) := extract readUInt64 f.file
    let (_version, file) := extract readUInt32 file
    -- The version is read with the magic number, and not looked at.
    if file.eof then .returned false { f with file := file.close }
    else if magic ≠ HARDWARE_FILE_MAGIC then
      .thrown (.magic HARDWARE_FILE_MAGIC.toNat magic.toNat) { f with file := file.close }
    else .returned true { f with file, last_read_position := file.pos }

/-- `next()`. The access that it returns is the current one of the state that it leaves. -/
def next (f : HardwareFile) : HardwareFile :=
  let f := { f with last_read_position := f.file.pos }
  if !f.file.eof then
    let (current, file) := extract readHardwareAccess f.file
    { f with current, file, position := (f.position + 1) % 2 ^ 64 }
  -- At the end of the file only the timestamp tells that there is no access.
  else { f with current := { f.current with tsc := 0 } }

/-- `advance_to()`. -/
def advanceTo (file_position position : ℕ) (f : HardwareFile) : HardwareFile :=
  let f := { f with file := f.file.seek file_position }
  if position = 0 then { f with position := 0 } else next { f with position := position - 1 }

/-- `sync_with()`. -/
def syncWith (f other : HardwareFile) : HardwareFile :=
  { f with file := f.file.seek other.file.pos, position := other.position, current := other.current }

/-- One pass of the loop `while (file.next().valid())`, which keeps the accesses that it goes
through. -/
def scanPass : List HardwareAccess × HardwareFile →
    Option (List HardwareAccess × HardwareFile ⊕ List HardwareAccess × HardwareFile)
  | (accesses, f) =>
    let f := f.next
    some (if f.current.valid then .inl (accesses ++ [f.current], f) else .inr (accesses, f))

/-- The accesses that the loop `while (file.next().valid())` goes through. -/
def accesses (f : HardwareFile) : Option (List HardwareAccess) :=
  (loop scanPass ([], f)).map Prod.fst

/-! ## Loading -/

/-- The header of a hardware file: the magic number and the version. -/
def header (version : UInt32) : List UInt8 :=
  toBytes 8 HARDWARE_FILE_MAGIC.toNat ++ toBytes 4 version.toNat

theorem length_header (version : UInt32) : (header version).length = 12 := by
  simp [header]

/-- The reader `f` when a file with the bytes `c` was loaded in it. -/
def loaded (c : List UInt8) (f : HardwareFile) : HardwareFile :=
  { f with file := openAt c 12, position := 0, last_read_position := 12 }

/-- A file that `load` accepts: it has a header, with the right magic number. -/
def Accepted (c : List UInt8) : Prop := 12 ≤ c.length ∧ UInt64.ofNat (leAt c 0 8) = HARDWARE_FILE_MAGIC

/-- A file that is accepted is loaded, whatever was open before. -/
theorem load_accepted {c : List UInt8} (h : Accepted c) (f : HardwareFile) :
    f.load (some c) = .returned true (f.loaded c) := by
  obtain ⟨hle, hmagic⟩ := h
  have hread := readUInt64_openAt (c := c) (o := 0) (by omega)
  rw [hmagic] at hread
  have hpos : (openAt c 12).pos = 12 := openAt_pos (by norm_num)
  unfold load
  simp only [load_some, hread, readUInt32_openAt hle, openAt_eof, openAt_opened, Bool.not_true,
    Bool.or_self, Bool.false_eq_true, if_false, ne_eq, not_true_eq_false, hpos, Nat.zero_add]
  rfl

/-- Any other file is left closed. -/
theorem load_refused {file : Option (List UInt8)} (h : ∀ c, file = some c → ¬ Accepted c)
    (f : HardwareFile) :
    (∃ g, f.load file = .returned false g ∧ Shut g.file) ∨
      ∃ err g, f.load file = .thrown err g ∧ Shut g.file := by
  cases file with
  | none =>
    -- The file cannot be opened.
    have heof := load_none_eof f.file
    refine .inl ⟨{ f with file := f.file.load none, position := 0 }, ?_, load_none_shut f.file⟩
    unfold load
    simp [heof]
  | some c =>
    have hafter : After c 12 (extract readUInt32 (extract readUInt64 (openAt c 0)).2).2 :=
      readUInt32_asks _ _ _ (readUInt64_asks c 0 _ (.inl ⟨rfl, Nat.zero_le _⟩))
    unfold load
    simp only [load_some, openAt_eof, openAt_opened, Bool.not_true, Bool.or_self, Bool.false_eq_true,
      if_false]
    rcases hafter with ⟨hfile, hle⟩ | ⟨⟨e, hend⟩, -⟩
    · -- The header is whole, so its magic is wrong.
      have hread := readUInt64_openAt (c := c) (o := 0) (by omega)
      have hmagic : (extract readUInt64 (openAt c 0)).1 ≠ HARDWARE_FILE_MAGIC := by
        rw [hread]
        exact fun heq => h c rfl ⟨hle, heq⟩
      simp only [hfile, openAt_eof, Bool.false_eq_true, if_false, ne_eq, hmagic, not_false_eq_true,
        if_true]
      exact .inr ⟨_, _, rfl, close_shut _⟩
    · -- The header is cut.
      simp only [hend, endAt_eof, if_true]
      exact .inl ⟨_, rfl, close_shut _⟩

/-- A file that begins with a header is accepted. -/
theorem accepted_header (version : UInt32) (bs : List UInt8) : Accepted (header version ++ bs) := by
  constructor
  · rw [List.length_append, length_header]
    omega
  · rw [header, List.append_assoc, leAt_toBytes_append _ HARDWARE_FILE_MAGIC.toNat_lt]
    exact UInt64.ofNat_toNat

/-- It is loaded, at the end of the header. -/
theorem load_header (version : UInt32) (bs : List UInt8) (f : HardwareFile) :
    f.load (some (header version ++ bs)) = .returned true (f.loaded (header version ++ bs)) :=
  load_accepted (accepted_header version bs) f

/-! ## Scanning a file -/

section

variable {c : List UInt8} {f g : HardwareFile} {as bs : List HardwareAccess}

/-- `next()` at the end of the file. -/
theorem next_eof (h : f.file.eof = true) :
    f.next = { f with last_read_position := f.file.pos, current := { f.current with tsc := 0 } } := by
  simp [next, h]

/-- `next()` before the end of the file. -/
theorem next_read (h : f.file.eof = false) :
    f.next =
      { file := (extract readHardwareAccess f.file).2, current := (extract readHardwareAccess f.file).1,
        last_read_position := f.file.pos, position := (f.position + 1) % 2 ^ 64 } := by
  simp [next, h]

/-- `next()` keeps the offset that it reads at. -/
theorem next_last_read_position (f : HardwareFile) : f.next.last_read_position = f.file.pos := by
  cases heof : f.file.eof with
  | true => rw [next_eof heof]
  | false => rw [next_read heof]

/-- The loop `while (file.next().valid())` goes from the reader `f` through the accesses `as`, and
leaves `g`. -/
inductive Scan : HardwareFile → List HardwareAccess → HardwareFile → Prop
  | stop {f : HardwareFile} (h : f.next.current.valid = false) : Scan f [] f.next
  | step {f g : HardwareFile} {as : List HardwareAccess} (h : f.next.current.valid = true)
      (rest : Scan f.next as g) : Scan f (f.next.current :: as) g

/-- The loop goes through the accesses of the scan. -/
theorem Scan.loop_eq (h : Scan f as g) (accesses : List HardwareAccess) :
    loop scanPass (accesses, f) = some (accesses ++ as, g) := by
  induction h generalizing accesses with
  | stop h =>
    rw [List.append_nil]
    exact loop_leave (by simp [scanPass, h])
  | @step f g as h rest ih =>
    rw [loop_again (t := (accesses ++ [f.next.current], f.next)) (by simp [scanPass, h]), ih,
      List.append_assoc, List.singleton_append]

theorem Scan.accesses_eq (h : Scan f as g) : f.accesses = some as := by
  rw [accesses, h.loop_eq]
  rfl

/-- The first access of a scan is the one that `next()` gives. -/
theorem Scan.head {a : HardwareAccess} (h : Scan f (a :: as) g) :
    f.next.current = a ∧ f.next.current.valid = true ∧ Scan f.next as g := by
  cases h with
  | step hvalid rest => exact ⟨rfl, hvalid, rest⟩

/-- The accesses of a scan are valid, and their data is that of vectors. -/
theorem Scan.valid (h : Scan f as g) : ∀ a ∈ as, a.Recorded := by
  induction h with
  | stop h => simp
  | @step f g as h rest ih =>
    refine List.forall_mem_cons.mpr ⟨⟨h, ?_⟩, ih⟩
    cases heof : f.file.eof with
    | true =>
      rw [next_eof heof] at h
      cases h
    | false =>
      rw [next_read heof]
      exact readHardwareAccess_sized f.file

/-- `next()` on a file that nothing made fail leaves less to read, or gives an invalid access. -/
theorem next_progress (h : Healthy c f.file) :
    Healthy c f.next.file ∧ (f.next.current.valid = true → remaining f.next.file < remaining f.file) := by
  cases heof : f.file.eof with
  | true =>
    rw [next_eof heof]
    exact ⟨h, fun hv => by cases hv⟩
  | false =>
    obtain ⟨hhealthy, hlt | heof'⟩ := readHardwareAccess_progress c f.file h
    · rw [next_read heof]
      exact ⟨hhealthy, fun _ => hlt⟩
    · rw [heof] at heof'
      cases heof'

/-- Every such file is scanned to an end. -/
theorem exists_scan (f : HardwareFile) (h : Healthy c f.file) : ∃ as g, Scan f as g := by
  induction hm : remaining f.file using Nat.strongRecOn generalizing f with
  | ind m ih =>
    obtain ⟨hhealthy, hlt⟩ := next_progress h
    cases hv : f.next.current.valid with
    | false => exact ⟨[], f.next, .stop hv⟩
    | true =>
      obtain ⟨as, g, hscan⟩ := ih _ (hm ▸ hlt hv) f.next hhealthy rfl
      exact ⟨_, g, .step hv hscan⟩

/-! ## Written accesses -/

/-- The bytes of a list of accesses. -/
def encodeAll (as : List HardwareAccess) : List UInt8 := as.flatMap HardwareAccess.encode

/-- Over written accesses that come next the scan goes one by one. -/
theorem exists_scan_append {t : List UInt8} {o : ℕ} (f : HardwareFile) (hfile : f.file = openAt c o)
    (hc : c.drop o = encodeAll as ++ t) (ho : o ≤ c.length)
    (has : ∀ a ∈ as, a.Recorded) :
    ∃ f' o', f'.file = openAt c o' ∧ c.drop o' = t ∧ o' ≤ c.length ∧
      ∀ bs g, Scan f' bs g → Scan f (as ++ bs) g := by
  induction as generalizing f o with
  | nil => exact ⟨f, o, hfile, hc, ho, fun _ _ h => h⟩
  | cons a as ih =>
    obtain ⟨⟨hvalid, hsized⟩, hrest⟩ := List.forall_mem_cons.mp has
    have hsplit : c.drop o = a.encode ++ (encodeAll as ++ t) := by
      rw [hc, encodeAll, List.flatMap_cons, List.append_assoc]
      rfl
    -- The first access is read as it was written, and the rest is to come.
    have hread := readHardwareAccess_reads a hsized c o (hsplit ▸ List.prefix_append _ _)
    have hnext := next_read (f := f) (by rw [hfile]; rfl)
    rw [hfile, hread] at hnext
    have hdrop : c.drop (o + a.encode.length) = encodeAll as ++ t := by
      rw [← List.drop_drop, hsplit, List.drop_left]
    have hle : o + a.encode.length ≤ c.length := by
      have hlen := congrArg List.length hsplit
      rw [List.length_drop, List.length_append] at hlen
      omega
    have hfile' : f.next.file = openAt c (o + a.encode.length) := by rw [hnext]
    obtain ⟨f', o', hf', ht, ho', hscan⟩ := ih f.next hfile' hdrop hle hrest
    refine ⟨f', o', hf', ht, ho', fun bs g h => ?_⟩
    have hcurrent : f.next.current = a := by rw [hnext]
    have hstep := Scan.step (by rw [hcurrent]; exact hvalid) (hscan bs g h)
    rwa [hcurrent] at hstep

/-- Where nothing is left, the scan ends. -/
theorem scan_end {o : ℕ} (hfile : f.file = openAt c o) (hc : c.drop o = []) : Scan f [] f.next := by
  apply Scan.stop
  have htsc := readHardwareAccess_tsc c o
  rw [next_read (by rw [hfile]; rfl), hfile, HardwareAccess.valid, htsc, leAt, hc]
  rfl

/-- A write of one byte, at a timestamp. -/
def oneByteWrite (tsc : UInt64) : HardwareAccess := ⟨tsc, 0x1000, 1, 0, 0, [0xff]⟩

/-- A header followed by written accesses is scanned as these. -/
theorem scan_encodeAll (version : UInt32) (f : HardwareFile)
    (has : ∀ a ∈ as, a.Recorded) :
    ∃ g, Scan (f.loaded (header version ++ encodeAll as)) as g := by
  have hdrop : (header version ++ encodeAll as).drop 12 = encodeAll as ++ [] := by
    rw [List.append_nil, ← length_header version, List.drop_left]
  obtain ⟨f', o', hf', ht, -, hscan⟩ := exists_scan_append
    (f.loaded (header version ++ encodeAll as)) rfl hdrop
    (by rw [List.length_append, length_header]; omega) has
  have hend := hscan [] _ (scan_end hf' ht)
  rw [List.append_nil] at hend
  exact ⟨_, hend⟩

end

end HardwareFile

end RvnSyncPoint
