import RvnSyncPoint.Extraction

/-!
# Extractions that may throw

The extraction of a string (`operator>>` in `include/streamable_file.h`) reserves room for it, which
throws when the length is more than it grants. So strings, and vectors of what may throw, are
extracted by an `Extractor`, which gives nothing when it throws. `TryReads` says of an extractor what
`Reads` says of a reader that cannot throw.
-/

namespace RvnSyncPoint

open LittleEndian

/-- What the extraction of a string depends on besides the file. The buffer, an array of variable length,
is taken to fit the stack. -/
structure StringMemory where
  /-- The largest length that `reserve` grants: `std::string::max_size()`, where memory does not run out
  before. It is no less than any 32-bit length. -/
  max_size : ℕ
  le_max_size : 2 ^ 32 ≤ max_size
  /-- The size `length + 1` of the buffer does not wrap around. -/
  max_size_lt : max_size < 2 ^ 64 - 1
  /-- What the buffer of the extraction at an offset holds before it, at each index. -/
  received : ℕ → ℕ → UInt8

namespace StreamableFile

variable {α β : Type}

/-- An extraction that may throw. -/
abbrev Extractor (α : Type) : Type := OptionT (StateM StreamableFile) α

/-- What an extraction gives, unless it throws, and the file after it. -/
def tryExtract (m : Extractor α) (f : StreamableFile) : Option α × StreamableFile := extract m.run f

@[simp]
theorem tryExtract_pure (a : α) (f : StreamableFile) : tryExtract (pure a) f = (some a, f) := rfl

@[simp]
theorem tryExtract_lift (m : StateM StreamableFile α) (f : StreamableFile) :
    tryExtract (liftM m) f = (some (extract m f).1, (extract m f).2) := rfl

theorem tryExtract_bind (m : Extractor α) (k : α → Extractor β) (f : StreamableFile) :
    tryExtract (m >>= k) f = match tryExtract m f with
      | (some a, g) => tryExtract (k a) g
      | (none, g) => (none, g) := by
  show extract (m.run >>= fun o => match o with | some a => (k a).run | none => pure none) f = _
  rw [extract_bind]
  unfold tryExtract
  rcases extract m.run f with ⟨_ | a, g⟩ <;> rfl

/-! ## Strings and vectors -/

/-- The buffer of a string of `length` characters. Their number is passed to `read_raw` as a 32-bit
one, and beyond it the buffer keeps what it held. -/
def readBuffer (m : StringMemory) (length : UInt64) : StateM StreamableFile (List UInt8) := do
  let offset := (← get).in_file.cursor
  let got ← readRaw length.toUInt32.toNat
  return got ++ (List.range' got.length (length.toNat - got.length)).map (m.received offset)

/-- `operator>>` for strings. -/
def readString (m : StringMemory) : Extractor (List UInt8) := do
  let length ← readUInt64
  if m.max_size < length.toNat then failure
  -- The buffer is assigned to the string as a C string, which its first zero ends.
  else return (← readBuffer m length).takeWhile (· != 0)

/-- The element loop of `operator>>` for vectors, whose elements may throw. -/
def readElementsT (readItem : Extractor α) : ℕ → Extractor (List α)
  | 0 => return []
  | size + 1 => do
    if (← get).eof then return []
    let item ← readItem
    return item :: (← readElementsT readItem size)

/-- `operator>>` for vectors, whose elements may throw. -/
def readVectorT (readItem : Extractor α) : Extractor (List α) := do
  let size ← readUInt64
  readElementsT readItem size.toNat

/-- Elements that are extracted and converted. -/
theorem readElementsT_map (g : α → β) (readItem : Extractor α) (size : ℕ) :
    readElementsT (g <$> readItem) size = List.map g <$> readElementsT readItem size := by
  induction size with
  | zero => rfl
  | succ size ih =>
    simp only [readElementsT, ih, map_bind]
    refine bind_congr fun f => ?_
    split_ifs
    · simp
    · simp

theorem readVectorT_map (g : α → β) (readItem : Extractor α) :
    readVectorT (g <$> readItem) = List.map g <$> readVectorT readItem := by
  simp only [readVectorT, readElementsT_map, map_bind]

theorem tryExtract_readString (m : StringMemory) (f : StreamableFile) :
    tryExtract (readString m) f =
      if m.max_size < (extract readUInt64 f).1.toNat then (none, (extract readUInt64 f).2)
      else tryExtract (do return (← readBuffer m (extract readUInt64 f).1).takeWhile (· != 0))
        (extract readUInt64 f).2 := by
  rw [readString, tryExtract_bind, tryExtract_lift]
  dsimp only
  split_ifs <;> rfl

/-- The element loop reads nothing once the end of the file is met. -/
theorem readElementsT_eof {readItem : Extractor α} {f : StreamableFile} (size : ℕ)
    (h : f.eof = true) : tryExtract (readElementsT readItem size) f = (some [], f) := by
  cases size with
  | zero => rfl
  | succ size =>
    show tryExtract (if f.eof = true then _ else _) f = _
    rw [if_pos h]
    rfl

/-- Before the end of the file, it reads an element, and goes on. -/
theorem readElementsT_succ {readItem : Extractor α} {f : StreamableFile} (size : ℕ)
    (h : f.eof = false) :
    tryExtract (readElementsT readItem (size + 1)) f = tryExtract (do
      let item ← readItem
      return item :: (← readElementsT readItem size)) f := by
  show tryExtract (if f.eof = true then _ else _) f = _
  rw [if_neg (by simp [h])]

/-! ## Sequences of extractions -/

/-- Where the bytes `bs` come next, `m` reads them, no more and no less, and gives `a`. -/
def TryReads (m : Extractor α) (bs : List UInt8) (a : α) : Prop := Reads m.run bs (some a)

theorem TryReads.pure (a : α) : TryReads (Pure.pure a) [] a := Reads.pure (some a)

theorem Reads.lift {m : StateM StreamableFile α} {bs : List UInt8} {a : α} (h : Reads m bs a) :
    TryReads (liftM m) bs a := by
  have hsome := Reads.bind (k := fun a => Pure.pure (some a)) h (Reads.pure (some a))
  rwa [List.append_nil] at hsome

/-- Extractors in a sequence read what each of them reads. -/
theorem TryReads.bind {m : Extractor α} {k : α → Extractor β} {bs cs : List UInt8} {a : α} {b : β}
    (hm : TryReads m bs a) (hk : TryReads (k a) cs b) : TryReads (m >>= k) (bs ++ cs) b := by
  have hrun : Reads (m.run >>= fun o => match o with
      | some a => (k a).run
      | none => Pure.pure none) (bs ++ cs) (some b) := Reads.bind hm hk
  exact hrun

theorem TryReads.map {m : Extractor α} {bs : List UInt8} {a : α} (g : α → β) (h : TryReads m bs a) :
    TryReads (do return g (← m)) bs (g a) := by
  have hpure := h.bind (k := fun a => Pure.pure (g a)) (TryReads.pure (g a))
  rwa [List.append_nil] at hpure

/-- The elements of a vector, where each of them is read. -/
theorem readElementsT_reads {readItem : Extractor α} {encode : β → List UInt8} {g : β → α}
    (items : List β) (h : ∀ b ∈ items, TryReads readItem (encode b) (g b)) :
    TryReads (readElementsT readItem items.length) (items.flatMap encode) (items.map g) := by
  induction items with
  | nil => exact TryReads.pure []
  | cons b items ih =>
    have hrest := ih fun b' hb' => h b' (List.mem_cons_of_mem b hb')
    intro c o hc
    have hitems : TryReads (do
        let item ← readItem
        return item :: (← readElementsT readItem items.length))
        (encode b ++ items.flatMap encode) (g b :: items.map g) :=
      (h b List.mem_cons_self).bind (hrest.map (g b :: ·))
    exact (readElementsT_succ items.length (openAt_eof c o)).trans (hitems c o hc)

end StreamableFile

end RvnSyncPoint
