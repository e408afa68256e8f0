import RvnSyncPoint.Hardware.File

/-!
# Iterating over a hardware file

The states that `next()` goes through from a freshly loaded file of written accesses. A reader is
before an access, at the end of the bytes of those before it (`Before`), until it has read one access
more than there are (`AtEnd`); each call goes from one state to the next. The end is noticed only by
the read that fails, which `position()` counts too (`iterate_position`), so that `position()` is the
number of accesses read exactly until then (`countsReads_iff`).
-/

namespace RvnSyncPoint

open LittleEndian StreamableFile

namespace HardwareFile

/-- The file of the accesses: a header, and their bytes. -/
def fileOf (version : UInt32) (as : List HardwareAccess) : List UInt8 := header version ++ encodeAll as

/-- The offset of an access of the file, counted from zero. -/
def accessOffset (as : List HardwareAccess) (k : ℕ) : ℕ := 12 + (encodeAll (as.take k)).length

section

variable {version : UInt32} {as : List HardwareAccess} {f : HardwareFile} {k : ℕ}

theorem encodeAll_cons (a : HardwareAccess) (as : List HardwareAccess) :
    encodeAll (a :: as) = a.encode ++ encodeAll as := List.flatMap_cons

theorem encodeAll_append (as bs : List HardwareAccess) :
    encodeAll (as ++ bs) = encodeAll as ++ encodeAll bs := List.flatMap_append

/-- An access has at least the bytes of its timestamp. -/
theorem length_le_encodeAll (as : List HardwareAccess) : as.length ≤ (encodeAll as).length := by
  induction as with
  | nil => exact Nat.zero_le _
  | cons a as ih =>
    rw [encodeAll_cons, List.length_append, HardwareAccess.length_encode, List.length_cons]
    omega

theorem length_fileOf : (fileOf version as).length = 12 + (encodeAll as).length := by
  rw [fileOf, List.length_append, length_header]

/-- What the file holds from the offset of an access on. -/
theorem drop_accessOffset (version : UInt32) (as : List HardwareAccess) (k : ℕ) :
    (fileOf version as).drop (accessOffset as k) = encodeAll (as.drop k) := by
  rw [accessOffset, ← List.drop_drop, fileOf, ← length_header version, List.drop_left]
  conv => lhs; rw [← List.take_append_drop k as, encodeAll_append]
  rw [List.take_append_drop, List.drop_left]

theorem accessOffset_le (version : UInt32) (as : List HardwareAccess) (k : ℕ) :
    accessOffset as k ≤ (fileOf version as).length := by
  have hsplit := congrArg (fun bs => (encodeAll bs).length) (List.take_append_drop k as)
  simp only [encodeAll_append, List.length_append] at hsplit
  rw [accessOffset, length_fileOf]
  omega

theorem accessOffset_succ (h : k < as.length) :
    accessOffset as (k + 1) = accessOffset as k + as[k].encode.length := by
  rw [accessOffset, List.take_add_one, List.getElem?_eq_getElem h, encodeAll_append,
    List.length_append, ← Nat.add_assoc]
  simp [accessOffset, encodeAll]

/-! ## The states of an iteration -/

/-- The reader has read `k` accesses of the file, and the next one is at its offset. -/
structure Before (version : UInt32) (as : List HardwareAccess) (k : ℕ) (f : HardwareFile) : Prop where
  file : f.file = openAt (fileOf version as) (accessOffset as k)
  position : f.position = k

/-- The reader has met the end of the file, in one read more than there are accesses. -/
structure AtEnd (as : List HardwareAccess) (f : HardwareFile) : Prop where
  eof : f.file.eof = true
  invalid : f.current.valid = false
  position : f.position = as.length + 1

theorem Before.loaded (version : UInt32) (as : List HardwareAccess) (f : HardwareFile) :
    Before version as 0 (f.loaded (fileOf version as)) := ⟨rfl, rfl⟩

/-- `next()` before an access reads it, and keeps its offset. -/
theorem Before.next_lt (h : Before version as k f) (hk : k < as.length) (has : ∀ a ∈ as, a.Recorded)
    (hlen : (fileOf version as).length < 2 ^ 63) :
    Before version as (k + 1) f.next ∧ f.next.current = as[k] ∧
      f.next.last_read_position = accessOffset as k := by
  obtain ⟨hfile, hposition⟩ := h
  have hprefix : as[k].encode <+: (fileOf version as).drop (accessOffset as k) := by
    rw [drop_accessOffset, List.drop_eq_getElem_cons hk, encodeAll_cons]
    exact List.prefix_append _ _
  have hread := readHardwareAccess_reads as[k] (has _ (List.getElem_mem hk)).2 _ _ hprefix
  rw [← accessOffset_succ hk, ← hfile] at hread
  -- The counter does not wrap: there are fewer accesses than bytes.
  have hcount := length_le_encodeAll as
  have hle := accessOffset_le version as k
  rw [length_fileOf] at hlen hle
  have hoffset : f.file.pos = accessOffset as k := by
    rw [hfile]
    exact openAt_pos (by omega)
  rw [next_read (by rw [hfile]; rfl), hread, hoffset, hposition, Nat.mod_eq_of_lt (by omega)]
  exact ⟨⟨rfl, rfl⟩, rfl, rfl⟩

/-- `next()` after the last access reads nothing, which it counts. -/
theorem Before.next_end (h : Before version as as.length f)
    (hlen : (fileOf version as).length < 2 ^ 63) : AtEnd as f.next := by
  obtain ⟨hfile, hposition⟩ := h
  have hend : (fileOf version as).drop (accessOffset as as.length) = [] := by
    rw [drop_accessOffset, List.drop_length]
    rfl
  have hread := readHardwareAccess_past (List.drop_eq_nil_iff.mp hend)
  have htsc := readHardwareAccess_tsc (fileOf version as) (accessOffset as as.length)
  rw [leAt, hend] at htsc
  rw [← hfile] at hread htsc
  have hcount := length_le_encodeAll as
  rw [length_fileOf] at hlen
  rw [next_read (by rw [hfile]; rfl), hread, hposition, Nat.mod_eq_of_lt (by omega)]
  exact ⟨rfl, by rw [HardwareAccess.valid, htsc]; rfl, rfl⟩

/-- At the end of the file `next()` leaves the reader there. -/
theorem AtEnd.next (h : AtEnd as f) : AtEnd as f.next := by
  rw [next_eof h.eof]
  exact ⟨h.eof, rfl, h.position⟩

/-- As many calls as there are accesses read them one by one. -/
theorem Before.iterate (f : HardwareFile) (has : ∀ a ∈ as, a.Recorded)
    (hlen : (fileOf version as).length < 2 ^ 63) (hk : k ≤ as.length) :
    Before version as k (HardwareFile.next^[k] (f.loaded (fileOf version as))) := by
  induction k with
  | zero => exact .loaded version as f
  | succ k ih =>
    rw [Function.iterate_succ_apply']
    exact ((ih (by omega)).next_lt hk has hlen).1

/-- All further calls are made at the end of the file. -/
theorem AtEnd.iterate (f : HardwareFile) (has : ∀ a ∈ as, a.Recorded)
    (hlen : (fileOf version as).length < 2 ^ 63) (hk : as.length < k) :
    AtEnd as (HardwareFile.next^[k] (f.loaded (fileOf version as))) := by
  induction k with
  | zero => cases hk
  | succ k ih =>
    rw [Function.iterate_succ_apply']
    rcases Nat.lt_succ_iff_lt_or_eq.mp hk with hlt | heq
    · exact (ih hlt).next
    · have hbefore := Before.iterate f has hlen heq.ge
      rw [← heq] at hbefore ⊢
      exact hbefore.next_end hlen

/-- `position()` counts the accesses read, and the read that fails at the end of the file. -/
theorem iterate_position (f : HardwareFile) (has : ∀ a ∈ as, a.Recorded)
    (hlen : (fileOf version as).length < 2 ^ 63) (k : ℕ) :
    (HardwareFile.next^[k] (f.loaded (fileOf version as))).position = min k (as.length + 1) := by
  rcases Nat.lt_or_ge as.length k with hk | hk
  · rw [(AtEnd.iterate f has hlen hk).position]
    omega
  · rw [(Before.iterate f has hlen hk).position]
    omega

/-! ## What a client sees -/

/-- What a client sees after `k` calls of `next()`: how many accesses were read, the last of these with
its offset, and no access beyond the last one. -/
structure CountsReads (as : List HardwareAccess) (k : ℕ) (f : HardwareFile) : Prop where
  position : f.position = min k as.length
  current : 1 ≤ k → k ≤ as.length →
    as[k - 1]? = some f.current ∧ f.last_read_position = accessOffset as (k - 1)
  invalid : as.length < k → f.current.valid = false

/-- On every file of written accesses, `position()` is the number of accesses read exactly until a call
finds no further access. -/
theorem countsReads_iff (version : UInt32) (as : List HardwareAccess) (f : HardwareFile) (k : ℕ)
    (has : ∀ a ∈ as, a.Recorded) (hlen : (fileOf version as).length < 2 ^ 63) :
    ∃ g, f.load (some (fileOf version as)) = .returned true g ∧
      (CountsReads as k (HardwareFile.next^[k] g) ↔ k ≤ as.length) := by
  refine ⟨_, load_header version (encodeAll as) f, ?_⟩
  rw [← fileOf]
  constructor
  · intro h
    have hposition := h.position
    rw [iterate_position f has hlen k] at hposition
    omega
  · intro hk
    refine ⟨by rw [iterate_position f has hlen k]; omega, fun hone _ => ?_, fun hlt => by omega⟩
    -- The last call read the access before which the reader was.
    obtain ⟨j, rfl⟩ : ∃ j, k = j + 1 := ⟨k - 1, by omega⟩
    obtain ⟨-, hcurrent, hlast⟩ := (Before.iterate f has hlen (Nat.le_of_lt hk)).next_lt hk has hlen
    rw [Function.iterate_succ_apply', hcurrent, hlast, Nat.add_sub_cancel]
    exact ⟨List.getElem?_eq_getElem hk, rfl⟩

/-- Two writes are counted while they are read. -/
theorem countsReads_twoWrites :
    ∃ g, (HardwareFile.new false (oneByteWrite 0)).load
        (some (fileOf 0 [oneByteWrite 256, oneByteWrite 512])) = .returned true g ∧
      (CountsReads [oneByteWrite 256, oneByteWrite 512] 2 (HardwareFile.next^[2] g) ↔
        2 ≤ [oneByteWrite 256, oneByteWrite 512].length) :=
  countsReads_iff 0 [oneByteWrite 256, oneByteWrite 512] (.new false (oneByteWrite 0)) 2
    (by decide) (by decide)

/-- A call on a file without accesses is counted as well. -/
theorem not_countsReads : ¬ ∀ (version : UInt32) (as : List HardwareAccess) (f g : HardwareFile) (k : ℕ),
    (∀ a ∈ as, a.Recorded) → (fileOf version as).length < 2 ^ 63 →
      f.load (some (fileOf version as)) = .returned true g →
        CountsReads as k (HardwareFile.next^[k] g) := by
  intro halways
  have hnone : ∀ a ∈ ([] : List HardwareAccess), a.Recorded := List.forall_mem_nil _
  have h := halways 0 [] (.new false (oneByteWrite 0)) _ 1 hnone (by decide)
    (load_header 0 (encodeAll []) _)
  have hposition := h.position
  rw [← fileOf, iterate_position _ hnone (by decide)] at hposition
  cases hposition

end

end HardwareFile

end RvnSyncPoint
