import RvnSyncPoint.Streamable

/-!
# Where streamed values end

The lengths of the strings and the sizes of the vectors on the way tell where a value that begins at an
offset of a byte string ends (`StreamType.stop`). By the format a string takes as many bytes as its
length says, and a value is there in whole exactly when it ends inside the byte string
(`exists_encode_iff`). The extraction of a string takes its length modulo `2^32`, and none that is more
than a string can have; what an extraction asks for is told by the same walk, whether or not the file
goes that far (`read_follows`).
-/

namespace RvnSyncPoint

open LittleEndian StreamableFile

/-- Where `n` items that come one after the other end, when `stop` tells it of each. -/
def stopAll (stop : ℕ → Option ℕ) : ℕ → ℕ → Option ℕ
  | 0, o => some o
  | n + 1, o => (stop o).bind (stopAll stop n)

namespace StreamType

/-- Where a value that begins at the offset `o` of `c` ends. The characters of a string of the length
`n` take `chars n` bytes; if they take none the walk is given up. -/
def stop (chars : ℕ → Option ℕ) (c : List UInt8) : StreamType → ℕ → Option ℕ
  | bool, o => some (o + 1)
  | uint8, o => some (o + 1)
  | uint16, o => some (o + 2)
  | uint32, o => some (o + 4)
  | uint64, o => some (o + 8)
  | string, o => (chars (leAt c o 8)).map (o + 8 + ·)
  | vector t, o => stopAll (t.stop chars c) (leAt c o 8) (o + 8)
  | pair t u, o => (t.stop chars c o).bind (u.stop chars c)

/-- The lengths of the strings of a value, and the sizes of its vectors, are 64-bit numbers. -/
def Sized : (t : StreamType) → t.Value → Prop
  | bool, _ => True
  | uint8, _ => True
  | uint16, _ => True
  | uint32, _ => True
  | uint64, _ => True
  | string, v => v.length < 2 ^ 64
  | vector t, v => v.length < 2 ^ 64 ∧ ∀ w ∈ v, t.Sized w
  | pair t u, v => t.Sized v.1 ∧ u.Sized v.2

/-- The type has no booleans, whose bytes are 0 or 1. -/
def BoolFree : StreamType → Prop
  | bool => False
  | uint8 => True
  | uint16 => True
  | uint32 => True
  | uint64 => True
  | string => True
  | vector t => t.BoolFree
  | pair t u => t.BoolFree ∧ u.BoolFree

end StreamType

/-! ## Values that are there -/

section

variable {c : List UInt8} {o e : ℕ}

/-- Items that are there end where the last of them ends. -/
theorem stopAll_encode {α : Type} {stop : ℕ → Option ℕ} {encode : α → List UInt8} (items : List α)
    (hstop : ∀ a ∈ items, ∀ o, encode a <+: c.drop o → stop o = some (o + (encode a).length))
    (h : items.flatMap encode <+: c.drop o) :
    stopAll stop items.length o = some (o + (items.flatMap encode).length) := by
  induction items generalizing o with
  | nil => rfl
  | cons a items ih =>
    rw [List.flatMap_cons] at h ⊢
    rw [List.length_cons, stopAll, hstop a List.mem_cons_self o ((List.prefix_append _ _).trans h),
      Option.bind_some, ih (fun b hb => hstop b (List.mem_cons_of_mem a hb)) (prefix_drop h),
      List.length_append, Nat.add_assoc]

/-- A value that is there ends where the walk ends. -/
theorem stop_encode (t : StreamType) (v : t.Value) (hv : t.Sized v) (h : t.encode v <+: c.drop o) :
    t.stop some c o = some (o + (t.encode v).length) := by
  -- The length that is read is the one that was written, since it fits in 64 bits.
  induction t generalizing o with
  | bool => rfl
  | uint8 => rfl
  | uint16 => rfl
  | uint32 => rfl
  | uint64 => rfl
  | string =>
    have hsize : (UInt64.ofNat v.length).toNat = v.length := UInt64.toNat_ofNat_of_lt' hv
    have hlength : leAt c o 8 = v.length := by
      rw [← hsize]
      exact leAt_eq_of_drop ((List.prefix_append _ _).trans h) (UInt64.toNat_lt _)
    rw [StreamType.stop, hlength, StreamType.encode, List.length_append, length_toBytes,
      ← Nat.add_assoc]
    rfl
  | vector t ih =>
    obtain ⟨hlt, hitems⟩ := hv
    have hsize : (UInt64.ofNat v.length).toNat = v.length := UInt64.toNat_ofNat_of_lt' hlt
    have hlength : leAt c o 8 = v.length := by
      rw [← hsize]
      exact leAt_eq_of_drop ((List.prefix_append _ _).trans h) (UInt64.toNat_lt _)
    have hdrop := prefix_drop h
    rw [length_toBytes] at hdrop
    rw [StreamType.stop, hlength, stopAll_encode v (fun w hw o h => ih w (hitems w hw) h) hdrop,
      StreamType.encode, List.length_append, length_toBytes, ← Nat.add_assoc]
  | pair t u iht ihu =>
    rw [StreamType.stop, iht v.1 hv.1 ((List.prefix_append _ _).trans h), Option.bind_some,
      ihu v.2 hv.2 (prefix_drop h), StreamType.encode, List.length_append, Nat.add_assoc]

/-- Where items end inside the byte string, they are there. -/
theorem exists_items_of_stopAll {α : Type} {stop : ℕ → Option ℕ} {encode : α → List UInt8}
    {P : α → Prop} (hstop : ∀ o e, stop o = some e → e ≤ c.length →
      ∃ a, P a ∧ encode a <+: c.drop o ∧ o + (encode a).length = e)
    (n : ℕ) (h : stopAll stop n o = some e) (he : e ≤ c.length) :
    ∃ items : List α, items.length = n ∧ (∀ a ∈ items, P a) ∧ items.flatMap encode <+: c.drop o ∧
      o + (items.flatMap encode).length = e := by
  induction n generalizing o with
  | zero =>
    cases h
    exact ⟨[], rfl, by simp, List.nil_prefix, rfl⟩
  | succ n ih =>
    obtain ⟨e', hfirst, hrest⟩ := Option.bind_eq_some_iff.mp h
    obtain ⟨items, hlen, hitems, hprefix, hend⟩ := ih hrest
    obtain ⟨a, ha, hprefix', hend'⟩ := hstop o e' hfirst (by omega)
    refine ⟨a :: items, by rw [List.length_cons, hlen], List.forall_mem_cons.mpr ⟨ha, hitems⟩, ?_, ?_⟩
    · rw [List.flatMap_cons]
      exact prefix_append hprefix' (hend'.symm ▸ hprefix)
    · rw [List.flatMap_cons, List.length_append]
      omega

/-- Where a value ends inside the byte string, it is there. -/
theorem exists_encode_of_stop (t : StreamType) (ht : t.BoolFree) (h : t.stop some c o = some e)
    (he : e ≤ c.length) :
    ∃ v, t.Sized v ∧ t.encode v <+: c.drop o ∧ o + (t.encode v).length = e := by
  -- The value is read off the bytes; where the type has a length, so many items follow it.
  induction t generalizing o e with
  | bool => exact ht.elim
  | uint8 =>
    cases h
    refine ⟨.ofNat (leAt c o 1), trivial, ?_, rfl⟩
    rw [StreamType.encode, UInt8.toNat_ofNat_of_lt' (leAt_lt c o 1)]
    exact toBytes_leAt he
  | uint16 =>
    cases h
    refine ⟨.ofNat (leAt c o 2), trivial, ?_, rfl⟩
    rw [StreamType.encode, UInt16.toNat_ofNat_of_lt' (leAt_lt c o 2)]
    exact toBytes_leAt he
  | uint32 =>
    cases h
    refine ⟨.ofNat (leAt c o 4), trivial, ?_, rfl⟩
    rw [StreamType.encode, UInt32.toNat_ofNat_of_lt' (leAt_lt c o 4)]
    exact toBytes_leAt he
  | uint64 =>
    cases h
    refine ⟨.ofNat (leAt c o 8), trivial, ?_, rfl⟩
    rw [StreamType.encode, UInt64.toNat_ofNat_of_lt' (leAt_lt c o 8)]
    exact toBytes_leAt he
  | string =>
    cases h
    have hle : o + 8 + leAt c o 8 ≤ c.length := he
    have hlt : leAt c o 8 < 2 ^ 64 := leAt_lt c o 8
    have hlen : ((c.drop (o + 8)).take (leAt c o 8)).length = leAt c o 8 := by
      rw [List.length_take, List.length_drop]
      omega
    refine ⟨(c.drop (o + 8)).take (leAt c o 8), ?_, ?_, ?_⟩
    · exact hlen.trans_lt hlt
    · rw [StreamType.encode, hlen, UInt64.toNat_ofNat_of_lt' hlt]
      exact prefix_append (toBytes_leAt (by omega)) (by rw [length_toBytes]; exact List.take_prefix _ _)
    · rw [StreamType.encode, List.length_append, length_toBytes, hlen, ← Nat.add_assoc]
  | vector t ih =>
    have hlt : leAt c o 8 < 2 ^ 64 := leAt_lt c o 8
    obtain ⟨v, hlen, hitems, hprefix, hend⟩ :=
      exists_items_of_stopAll (fun o e h he => ih ht h he) (leAt c o 8) h he
    refine ⟨v, ⟨hlen.trans_lt hlt, hitems⟩, ?_, ?_⟩
    · rw [StreamType.encode, hlen, UInt64.toNat_ofNat_of_lt' hlt]
      exact prefix_append (toBytes_leAt (by omega)) (by rw [length_toBytes]; exact hprefix)
    · rw [StreamType.encode, List.length_append, length_toBytes, ← Nat.add_assoc, hend]
  | pair t u iht ihu =>
    obtain ⟨e', hfirst, hsecond⟩ := Option.bind_eq_some_iff.mp h
    obtain ⟨w, hw, hprefix, hend⟩ := ihu ht.2 hsecond he
    obtain ⟨v, hv, hprefix', hend'⟩ := iht ht.1 hfirst (by omega)
    refine ⟨(v, w), ⟨hv, hw⟩, prefix_append hprefix' (hend'.symm ▸ hprefix), ?_⟩
    rw [StreamType.encode, List.length_append]
    dsimp only
    omega

/-- Values of a type are there, `n` of them one after the other, exactly when the last of them ends
inside the byte string. -/
theorem exists_encode_iff (t : StreamType) (ht : t.BoolFree) (n : ℕ) (ho : o ≤ c.length) :
    (∃ vs : List t.Value, vs.length = n ∧ (∀ v ∈ vs, t.Sized v) ∧ vs.flatMap t.encode <+: c.drop o) ↔
      ∃ e ≤ c.length, stopAll (t.stop some c) n o = some e := by
  constructor
  · rintro ⟨vs, rfl, hsized, hprefix⟩
    refine ⟨_, ?_, stopAll_encode vs (fun v hv o h => stop_encode t v (hsized v hv) h) hprefix⟩
    have hle := hprefix.length_le
    rw [List.length_drop] at hle
    omega
  · rintro ⟨e, he, hstop⟩
    obtain ⟨vs, hlen, hsized, hprefix, -⟩ :=
      exists_items_of_stopAll (fun o e h he => exists_encode_of_stop t ht h he) n hstop he
    exact ⟨vs, hlen, hsized, hprefix⟩

end

/-! ## What extractions ask for -/

/-- The bytes that the extraction of a string of the length `n` asks for after the length, if it does
not throw. -/
def StringMemory.asked (m : StringMemory) (n : ℕ) : Option ℕ :=
  if m.max_size < n then none else some (n % 2 ^ 32)

section

variable {α β : Type} {c : List UInt8} {stop stop' : ℕ → Option ℕ}

/-- Beyond the end of the byte string the walk goes on. -/
def GoesOn (c : List UInt8) (stop : ℕ → Option ℕ) : Prop :=
  ∀ o, c.length < o → ∃ e, stop o = some e ∧ c.length < e

theorem GoesOn.stopAll (h : GoesOn c stop) (n : ℕ) : GoesOn c (stopAll stop n) := by
  induction n with
  | zero => exact fun o ho => ⟨o, rfl, ho⟩
  | succ n ih =>
    intro o ho
    obtain ⟨e, hstop, he⟩ := h o ho
    obtain ⟨e', hrest, he'⟩ := ih e he
    exact ⟨e', by rw [RvnSyncPoint.stopAll, hstop, Option.bind_some, hrest], he'⟩

/-- What is read there is zero, so no string is too long. -/
theorem goesOn_stop (m : StringMemory) (t : StreamType) : GoesOn c (t.stop m.asked c) := by
  induction t with
  | bool => exact fun o ho => ⟨o + 1, rfl, by omega⟩
  | uint8 => exact fun o ho => ⟨o + 1, rfl, by omega⟩
  | uint16 => exact fun o ho => ⟨o + 2, rfl, by omega⟩
  | uint32 => exact fun o ho => ⟨o + 4, rfl, by omega⟩
  | uint64 => exact fun o ho => ⟨o + 8, rfl, by omega⟩
  | string =>
    intro o ho
    refine ⟨o + 8 + 0, ?_, by omega⟩
    rw [StreamType.stop, leAt_end 8 ho.le, StringMemory.asked, if_neg (Nat.not_lt_zero _)]
    rfl
  | vector t ih =>
    intro o ho
    refine ⟨o + 8, ?_, by omega⟩
    rw [StreamType.stop, leAt_end 8 ho.le]
    rfl
  | pair t u iht ihu =>
    intro o ho
    obtain ⟨e, hfirst, he⟩ := iht o ho
    obtain ⟨e', hsecond, he'⟩ := ihu e he
    exact ⟨e', by rw [StreamType.stop, hfirst, Option.bind_some, hsecond], he'⟩

/-- The extractor throws where the walk is given up, and otherwise asks for all up to where the walk
ends. -/
def Follows (m : Extractor α) (c : List UInt8) (stop : ℕ → Option ℕ) : Prop :=
  ∀ o f, After c o f → match stop o with
    | none => (tryExtract m f).1 = none
    | some e => ∃ a g, tryExtract m f = (some a, g) ∧ After c e g

theorem Follows.lift {m : StateM StreamableFile α} {n : ℕ} (h : Asks m n) :
    Follows (liftM m) c fun o => some (o + n) :=
  fun o f hf => ⟨_, _, rfl, h c o f hf⟩

theorem Follows.pure (a : α) : Follows (Pure.pure a) c some := fun _ f hf => ⟨a, f, rfl, hf⟩

/-- Extractors in a sequence follow the walks one after the other. -/
theorem Follows.bind {m : Extractor α} {k : α → Extractor β} (hm : Follows m c stop)
    (hk : ∀ a, Follows (k a) c stop') : Follows (m >>= k) c fun o => (stop o).bind stop' := by
  intro o f hf
  have hfirst := hm o f hf
  dsimp only
  cases hstop : stop o with
  | none =>
    rw [hstop] at hfirst
    rw [tryExtract_bind]
    rcases hread : tryExtract m f with ⟨_ | a, g⟩
    · rfl
    · rw [hread] at hfirst
      cases hfirst
  | some e =>
    rw [hstop] at hfirst
    obtain ⟨a, g, hread, hg⟩ := hfirst
    rw [tryExtract_bind, hread]
    exact hk a e g hg

theorem Follows.map {m : Extractor α} (g : α → β) (h : Follows m c stop) :
    Follows (do return g (← m)) c stop := by
  have hbind := h.bind fun a => Follows.pure (g a)
  simpa only [Option.bind_fun_some] using hbind

/-- The number that is read at an offset, of which the bytes beyond the end of the file are zero. -/
theorem StreamableFile.After.readUInt64_value {o : ℕ} {f : StreamableFile} (h : After c o f) :
    (extract readUInt64 f).1 = .ofNat (leAt c o 8) := by
  rcases h with ⟨rfl, -⟩ | ⟨⟨e, rfl⟩, hlt⟩
  · exact StreamableFile.readUInt64_value c o
  · rw [readUInt64_silent (.of_eof rfl), leAt_end 8 hlt.le]
    rfl

/-- The element loop follows the walk through the elements: beyond the end of the file neither finds
anything. -/
theorem readElementsT_follows {readItem : Extractor α} (h : Follows readItem c stop)
    (hstop : GoesOn c stop) (n : ℕ) : Follows (readElementsT readItem n) c (stopAll stop n) := by
  induction n with
  | zero => exact Follows.pure []
  | succ n ih =>
    intro o f hf
    cases heof : f.eof with
    | true =>
      -- Nothing more is read.
      obtain ⟨e, rfl⟩ : ∃ e, f = endAt c e := by
        rcases hf with ⟨rfl, -⟩ | ⟨hend, -⟩
        · cases heof
        · exact hend
      have hlt : c.length < o := by
        rcases hf with ⟨hfile, -⟩ | ⟨-, hlt⟩
        · cases hfile
        · exact hlt
      obtain ⟨e', hrest, he'⟩ := hstop.stopAll (n + 1) o hlt
      rw [hrest]
      exact ⟨[], endAt c e, readElementsT_eof _ heof, .inr ⟨⟨e, rfl⟩, he'⟩⟩
    | false =>
      have hitems := h.bind fun item => ih.map (item :: ·)
      rw [readElementsT_succ n heof]
      exact hitems o f hf

/-- The buffer of a string. -/
theorem readBuffer_asks (m : StringMemory) (length : UInt64) :
    Asks (readBuffer m length) (length.toNat % 2 ^ 32) := by
  have hraw : Asks (readRaw length.toUInt32.toNat) length.toUInt32.toNat := by
    rcases Nat.eq_zero_or_pos length.toUInt32.toNat with hzero | hpos
    · -- Reading no bytes does not look for the end of the file.
      rw [hzero]
      rintro c o f (⟨rfl, hle⟩ | ⟨⟨e, rfl⟩, hlt⟩)
      · exact .inl ⟨rfl, hle⟩
      · exact .inr ⟨⟨e, rfl⟩, hlt⟩
    · exact readRaw_asks hpos
  rw [UInt64.toNat_toUInt32] at hraw
  intro c o f hf
  exact (hraw.bind fun got => Asks.pure _) c o f hf

theorem readString_follows (m : StringMemory) :
    Follows (readString m) c (StreamType.string.stop m.asked c) := by
  intro o f hf
  have hlt : leAt c o 8 < 2 ^ 64 := leAt_lt c o 8
  rw [tryExtract_readString, hf.readUInt64_value, UInt64.toNat_ofNat_of_lt' hlt, StreamType.stop,
    StringMemory.asked]
  split_ifs with hmax
  · rfl
  · have hasks := readBuffer_asks m (.ofNat (leAt c o 8))
    rw [UInt64.toNat_ofNat_of_lt' hlt] at hasks
    exact (Follows.lift hasks).map (List.takeWhile (· != 0)) _ _ (readUInt64_asks c o f hf)

/-- Extractions follow the walk, whether or not the file goes that far. -/
theorem read_follows (m : StringMemory) (t : StreamType) :
    Follows (t.read m) c (t.stop m.asked c) := by
  induction t with
  | bool => exact Follows.lift readBool_asks
  | uint8 => exact Follows.lift readUInt8_asks
  | uint16 => exact Follows.lift readUInt16_asks
  | uint32 => exact Follows.lift readUInt32_asks
  | uint64 => exact Follows.lift readUInt64_asks
  | string => exact readString_follows m
  | vector t ih =>
    intro o f hf
    have hlt : leAt c o 8 < 2 ^ 64 := leAt_lt c o 8
    have hitems := readElementsT_follows ih (goesOn_stop m t) (leAt c o 8) (o + 8) _
      (readUInt64_asks c o f hf)
    have hgo : tryExtract ((StreamType.vector t).read m) f =
        tryExtract (readElementsT (t.read m) (extract readUInt64 f).1.toNat) (extract readUInt64 f).2 :=
      rfl
    rw [hgo, hf.readUInt64_value, UInt64.toNat_ofNat_of_lt' hlt]
    exact hitems
  | pair t u iht ihu => exact iht.bind fun v => ihu.map fun w => (v, w)

end

end RvnSyncPoint
