import RvnSyncPoint.StreamableFile
import RvnSyncPoint.StreamableOutfile

/-!
# Sequences of extractions

Two ways to follow a sequence of extractions `file >> a >> b >> ...` through a file. `Reads m bs a`
says that where the bytes `bs` come next, `m` reads them and gives `a`; such readers compose
(`Reads.bind`), so that what a sequence of insertions wrote is read back. `After c o f` says that `f`
is what a file on the bytes `c` is when reads have asked for all that comes before the offset `o`,
whether or not the file goes that far.
-/

namespace RvnSyncPoint.StreamableFile

open LittleEndian

variable {α β : Type}

/-- Where the bytes `bs` come next, `m` reads them, no more and no less, and gives `a`. -/
def Reads (m : StateM StreamableFile α) (bs : List UInt8) (a : α) : Prop :=
  ∀ c o, bs <+: c.drop o → extract m (openAt c o) = (a, openAt c (o + bs.length))

theorem Reads.pure (a : α) : Reads (Pure.pure a : StateM StreamableFile α) [] a :=
  fun _ _ _ => rfl

/-- Readers in a sequence read what each of them reads. -/
theorem Reads.bind {m : StateM StreamableFile α} {k : α → StateM StreamableFile β}
    {bs cs : List UInt8} {a : α} {b : β} (hm : Reads m bs a) (hk : Reads (k a) cs b) :
    Reads (m >>= k) (bs ++ cs) b := by
  intro c o h
  rw [extract_bind, hm c o ((List.prefix_append bs cs).trans h), hk c _ (prefix_drop h),
    List.length_append, Nat.add_assoc]

/-- Reading some bytes reads those that come next. -/
theorem readRaw_reads {n : ℕ} {bs : List UInt8} (hlen : bs.length = n) : Reads (readRaw n) bs bs := by
  intro c o h
  subst hlen
  cases bs with
  | nil => rfl
  | cons b bs =>
    have hle := h.length_le
    rw [List.length_drop] at hle
    have hpos : 0 < (b :: bs).length := Nat.succ_pos _
    have htake : (c.drop o).take (b :: bs).length = b :: bs := (List.prefix_iff_eq_take.mp h).symm
    rw [readRaw_openAt (by omega), htake]

/-- Reading bytes and converting them. -/
theorem readRaw_map_reads (g : List UInt8 → α) {n : ℕ} {bs : List UInt8} (hlen : bs.length = n) :
    Reads (do return g (← readRaw n)) bs (g bs) := by
  have h := Reads.bind (k := fun bs => Pure.pure (g bs)) (readRaw_reads hlen) (Reads.pure (g bs))
  rwa [List.append_nil] at h

/-- A number is read back as it was written. -/
theorem readUInt64_reads (v : UInt64) : Reads readUInt64 (toBytes 8 v.toNat) v := by
  have h := readRaw_map_reads (fun bs => UInt64.ofNat (ofBytes bs)) (length_toBytes 8 v.toNat)
  rwa [ofBytes_toBytes v.toNat_lt, UInt64.ofNat_toNat] at h

theorem readUInt32_reads (v : UInt32) : Reads readUInt32 (toBytes 4 v.toNat) v := by
  have h := readRaw_map_reads (fun bs => UInt32.ofNat (ofBytes bs)) (length_toBytes 4 v.toNat)
  rwa [ofBytes_toBytes v.toNat_lt, UInt32.ofNat_toNat] at h

theorem readUInt16_reads (v : UInt16) : Reads readUInt16 (toBytes 2 v.toNat) v := by
  have h := readRaw_map_reads (fun bs => UInt16.ofNat (ofBytes bs)) (length_toBytes 2 v.toNat)
  rwa [ofBytes_toBytes v.toNat_lt, UInt16.ofNat_toNat] at h

theorem readUInt8_reads (v : UInt8) : Reads readUInt8 [v] v := by
  have h := readRaw_map_reads (fun bs => UInt8.ofNat (ofBytes bs)) (show [v].length = 1 from rfl)
  have hv : UInt8.ofNat (ofBytes [v]) = v := by simp [ofBytes]
  rwa [hv] at h

/-- So is a boolean. -/
theorem readBool_reads (v : Bool) : Reads readBool (toBytes 1 v.toNat) v := by
  have h := readRaw_map_reads (fun bs => ofBytes bs != 0) (length_toBytes 1 v.toNat)
  have hv : (ofBytes (toBytes 1 v.toNat) != 0) = v := by
    cases v with
    | false => rfl
    | true => rfl
  rwa [hv] at h

/-- So are bytes, one by one. -/
theorem readElements_reads (data : List UInt8) :
    Reads (readElements readUInt8 data.length) data data := by
  induction data with
  | nil => exact Reads.pure []
  | cons b data ih =>
    intro c o h
    have hitems : Reads (do let item ← readUInt8
                            return item :: (← readElements readUInt8 data.length))
        ([b] ++ (data ++ [])) (b :: data) :=
      (readUInt8_reads b).bind (ih.bind (Reads.pure (b :: data)))
    rw [List.append_nil] at hitems
    exact hitems c o h

/-- A vector of bytes is read back, when its size is a 64-bit number. -/
theorem readVector_reads (data : List UInt8) (h : data.length < 2 ^ 64) :
    Reads (readVector readUInt8) (toBytes 8 (UInt64.ofNat data.length).toNat ++ data) data := by
  have hsize : (UInt64.ofNat data.length).toNat = data.length := UInt64.toNat_ofNat_of_lt' h
  refine (readUInt64_reads _).bind ?_
  rw [hsize]
  exact readElements_reads data

/-! ## Across the end of the file -/

/-- The file is what reads of all that comes before the offset `o` leave. -/
def After (c : List UInt8) (o : ℕ) (f : StreamableFile) : Prop :=
  f = openAt c o ∧ o ≤ c.length ∨ (∃ e, f = endAt c e) ∧ c.length < o

theorem After.eof {c : List UInt8} {o : ℕ} {f : StreamableFile} (h : After c o f)
    (hlt : c.length < o) : f.eof = true := by
  rcases h with ⟨-, hle⟩ | ⟨⟨e, rfl⟩, -⟩
  · omega
  · rfl

/-- A reader that asks for `n` bytes, whatever they are. -/
def Asks (m : StateM StreamableFile α) (n : ℕ) : Prop :=
  ∀ c o f, After c o f → After c (o + n) (extract m f).2

theorem Asks.pure (a : α) : Asks (Pure.pure a : StateM StreamableFile α) 0 := fun _ _ _ h => h

theorem Asks.bind {m : StateM StreamableFile α} {k : α → StateM StreamableFile β} {n n' : ℕ}
    (hm : Asks m n) (hk : ∀ a, Asks (k a) n') : Asks (m >>= k) (n + n') := by
  intro c o f h
  rw [extract_bind, ← Nat.add_assoc]
  exact hk _ _ _ _ (hm c o f h)

/-- In a sequence that asks for `n` bytes, what follows the first reader asks for the rest. -/
theorem Asks.first {m : StateM StreamableFile α} {k : α → StateM StreamableFile β} {n n' : ℕ}
    (hm : Asks m n') (hle : n' ≤ n) (hk : ∀ a, Asks (k a) (n - n')) : Asks (m >>= k) n := by
  have h := hm.bind hk
  rwa [Nat.add_sub_of_le hle] at h

theorem readRaw_asks {n : ℕ} (hn : 0 < n) : Asks (readRaw n) n := by
  rintro c o f (⟨rfl, hle⟩ | ⟨⟨e, rfl⟩, hlt⟩)
  · rcases Nat.lt_or_ge c.length (o + n) with hlt | hge
    · rw [readRaw_openAt_short hlt hn]
      exact .inr ⟨⟨_, rfl⟩, hlt⟩
    · rw [readRaw_openAt hge]
      exact .inl ⟨rfl, hge⟩
  · rw [readRaw_eof n rfl]
    exact .inr ⟨⟨e, rfl⟩, by omega⟩

theorem readBool_asks : Asks readBool 1 := (readRaw_asks (by omega)).bind fun _ => .pure _
theorem readUInt8_asks : Asks readUInt8 1 := (readRaw_asks (by omega)).bind fun _ => .pure _
theorem readUInt16_asks : Asks readUInt16 2 := (readRaw_asks (by omega)).bind fun _ => .pure _
theorem readUInt32_asks : Asks readUInt32 4 := (readRaw_asks (by omega)).bind fun _ => .pure _
theorem readUInt64_asks : Asks readUInt64 8 := (readRaw_asks (by omega)).bind fun _ => .pure _

/-- The element loop reads nothing once the end of the file is met. -/
theorem readElements_eof {readItem : StateM StreamableFile α} {f : StreamableFile} (size : ℕ)
    (h : f.eof = true) : extract (readElements readItem size) f = ([], f) := by
  cases size with
  | zero => rfl
  | succ size =>
    show extract (if f.eof = true then _ else _) f = _
    rw [if_pos h]
    rfl

/-- The element loop asks for every element: it stops before the last one only at the end of the
file. -/
theorem readElements_asks (size : ℕ) : Asks (readElements readUInt8 size) size := by
  induction size with
  | zero => exact Asks.pure []
  | succ size ih =>
    intro c o f h
    cases heof : f.eof with
    | true =>
      -- Nothing more is read, and the end is before the next element.
      rw [readElements_eof _ heof]
      rcases h with ⟨rfl, -⟩ | ⟨hend, hlt⟩
      · cases heof
      · exact .inr ⟨hend, by omega⟩
    | false =>
      have hgo : extract (readElements readUInt8 (size + 1)) f =
          extract (do let item ← readUInt8
                      return item :: (← readElements readUInt8 size)) f := by
        show extract (if f.eof = true then _ else _) f = _
        rw [if_neg (by simp [heof])]
      have hitems := readUInt8_asks.bind fun item => ih.bind fun items =>
        Asks.pure (item :: items)
      rw [hgo, show o + (size + 1) = o + (1 + (size + 0)) by omega]
      exact hitems c o f h

/-- A vector read where reads give zeros is empty. -/
theorem readVector_silent {readItem : StateM StreamableFile α} {f : StreamableFile}
    (h : Silent f) : extract (readVector readItem) f = ([], f) := by
  simp only [readVector, extract_bind, readUInt64_silent h]
  rfl

/-- A number that the end of the file cuts has zeros for the bytes that are missing. -/
theorem readRaw_value (c : List UInt8) (o : ℕ) {n : ℕ} (hn : 0 < n) :
    ofBytes (extract (readRaw n) (openAt c o)).1 = leAt c o n := by
  rcases Nat.lt_or_ge c.length (o + n) with hlt | hle
  · have hshort : (c.drop o).length ≤ n := by
      rw [List.length_drop]
      omega
    rw [readRaw_openAt_short hlt hn, ofBytes_append_zeros, leAt, List.take_of_length_le hshort]
  · rw [readRaw_openAt hle]
    rfl

theorem readUInt64_value (c : List UInt8) (o : ℕ) :
    (extract readUInt64 (openAt c o)).1 = .ofNat (leAt c o 8) := by
  simp only [readUInt64, extract_bind, extract_pure, readRaw_value c o (show 0 < 8 by omega)]

theorem readUInt32_value (c : List UInt8) (o : ℕ) :
    (extract readUInt32 (openAt c o)).1 = .ofNat (leAt c o 4) := by
  simp only [readUInt32, extract_bind, extract_pure, readRaw_value c o (show 0 < 4 by omega)]

/-- The element loop reads no more elements than it is told to. -/
theorem readElements_length_le {readItem : StateM StreamableFile α} (size : ℕ)
    (f : StreamableFile) : (extract (readElements readItem size) f).1.length ≤ size := by
  induction size generalizing f with
  | zero => exact le_rfl
  | succ size ih =>
    have hitem : extract (readElements readItem (size + 1)) f =
        extract (if f.eof = true then Pure.pure []
          else do
            let item ← readItem
            return item :: (← readElements readItem size)) f := rfl
    rw [hitem]
    split_ifs
    · exact Nat.zero_le _
    · exact Nat.succ_le_succ (ih _)

end RvnSyncPoint.StreamableFile
