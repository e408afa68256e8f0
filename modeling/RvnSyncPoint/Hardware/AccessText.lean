import RvnSyncPoint.Ostream
import RvnSyncPoint.Hardware.Access

/-!
# The text of a hardware access

The `operator<<` of a hardware access (`src/hardware_access.cpp`), with the functions of the access that
it calls. It prints short data as a number in a field that is too narrow for the number and its `0x`, and
of long data only the size, so that its line does not tell everything of an access: two lines are the
same exactly when the accesses are in the relation `HardwareAccess.LooksLike` (`line_inj`).
-/

namespace RvnSyncPoint

open LittleEndian Printing

/-- `hardware_access_type`: the flags of a type. -/
inductive HardwareAccessType where
  | write
  | pci
  | mmio
  | port
deriving DecidableEq

def HardwareAccessType.value : HardwareAccessType → UInt64
  | .write => 0x1
  | .pci => 0x2
  | .mmio => 0x4
  | .port => 0x8

namespace HardwareAccess

/-- `has_type()`. -/
def hasType (checked_type : HardwareAccessType) (access : HardwareAccess) : Bool :=
  access.type &&& checked_type.value == checked_type.value

/-- `is_mmio()`. -/
def isMmio : HardwareAccess → Bool := hasType .mmio

/-- `is_pci()`. -/
def isPci : HardwareAccess → Bool := hasType .pci

/-- `is_port()`. -/
def isPort : HardwareAccess → Bool := hasType .port

/-- `is_write()`. -/
def isWrite : HardwareAccess → Bool := hasType .write

/-- `to_uint64()`: the number that the first bytes of the data are copied into. -/
def toUInt64 (access : HardwareAccess) : UInt64 := .ofNat (ofBytes (access.data.take 8))

/-- The kind of an access, as it is printed. -/
def kind (access : HardwareAccess) : String :=
  if access.isPci then "PCI"
  else if access.isMmio then "MMIO"
  else if access.isPort then "Port"
  else "Unknown type"

/-- The direction of an access, as it is printed. -/
def direction (access : HardwareAccess) : String :=
  if access.isWrite then "write to " else "read from "

end HardwareAccess

namespace Ostream

/-- The data of an access. -/
def accessData (access : HardwareAccess) (out : Ostream) : Ostream :=
  if access.data.length ≤ 8 then
    out |>.showBase |>.setw (access.data.length * 2) |>.number access.toUInt64.toNat
  else if access.data.length ≤ 32 then
    access.data.foldl (fun out ch => out |>.setw 2 |>.number ch.toNat |>.str " ") out
  else out |>.str "<stripped " |>.dec |>.number access.data.length |>.str " bytes>"

/-- `out << access`. -/
def hardwareAccess (access : HardwareAccess) (out : Ostream) : Ostream :=
  out |>.showBase |>.hex |>.setfill '0' |>.str "TSC=0x" |>.number access.tsc.toNat |>.str ", "
    |>.str access.kind |>.str " " |>.str access.direction |>.showBase |>.hex
    |>.number access.physical_address.toNat |>.str " = " |>.accessData access |>.dec

end Ostream

/-! ## The line -/

/-- Short data: the number that it is, with leading zeros for as many digits as the data has. -/
def wordText (data : List UInt8) : List Char :=
  (numeral .hex true (ofBytes data)).leftpad (data.length * 2) '0'

/-- Data of some length: its bytes. -/
def spacedText (data : List UInt8) : List Char :=
  data.flatMap fun ch => (numeral .hex true ch.toNat).leftpad 2 '0' ++ [' ']

/-- Long data: its size. -/
def strippedText (data : List UInt8) : List Char :=
  "<stripped ".toList ++ Nat.toDigits 10 data.length ++ " bytes>".toList

def shownData (data : List UInt8) : List Char :=
  if data.length ≤ 8 then wordText data
  else if data.length ≤ 32 then spacedText data
  else strippedText data

namespace HardwareAccess

/-- What is printed before the data. -/
def head (a : HardwareAccess) : List Char :=
  "TSC=0x".toList ++ (numeral .hex true a.tsc.toNat ++ [',']) ++
    (" ".toList ++ (a.kind.toList ++ " ".toList ++ a.direction.toList)) ++
      (numeral .hex true a.physical_address.toNat ++ [' ']) ++ "= ".toList

/-- The line of an access. -/
def line (a : HardwareAccess) : List Char := a.head ++ shownData a.data

end HardwareAccess

section

variable (t : List Char) (a : HardwareAccess)

/-- Short data is all in the number. -/
theorem HardwareAccess.toUInt64_toNat (h : a.data.length ≤ 8) : a.toUInt64.toNat = ofBytes a.data := by
  have hlt : ofBytes a.data < 2 ^ 64 :=
    (ofBytes_lt a.data).trans_le (Nat.pow_le_pow_right (by norm_num : 0 < 256) h)
  rw [toUInt64, List.take_of_length_le h, UInt64.toNat_ofNat_of_lt' hlt]

theorem Ostream.foldl_bytes_eq (data : List UInt8) :
    data.foldl (fun out ch => out |>.setw 2 |>.number ch.toNat |>.str " ")
      (Ostream.mk t .hex true '0' 0) = ⟨t ++ spacedText data, .hex, true, '0', 0⟩ := by
  induction data generalizing t with
  | nil => simp [spacedText]
  | cons ch data ih =>
    have hbyte : (((Ostream.mk t .hex true '0' 0).setw 2).number ch.toNat).str " " =
        ⟨t ++ ((numeral .hex true ch.toNat).leftpad 2 '0' ++ [' ']), .hex, true, '0', 0⟩ := by
      simp [setw, number, insert]
    rw [List.foldl_cons, hbyte, ih]
    simp [spacedText]

theorem Ostream.word_eq (h : a.data.length ≤ 8) :
    (((Ostream.mk t .hex true '0' 0).showBase.setw (a.data.length * 2)).number a.toUInt64.toNat).dec =
      ⟨t ++ wordText a.data, .dec, true, '0', 0⟩ := by
  rw [a.toUInt64_toNat h]
  rfl

theorem Ostream.stripped_eq (data : List UInt8) :
    ((((Ostream.mk t .hex true '0' 0).str "<stripped ").dec.number data.length).str " bytes>").dec =
      ⟨t ++ strippedText data, .dec, true, '0', 0⟩ := by
  unfold strippedText
  simp only [str_mk_zero, dec_mk, number_mk_zero, numeral_dec, List.append_assoc]

theorem Ostream.accessData_eq : ((Ostream.mk t .hex true '0' 0).accessData a).dec =
    ⟨t ++ shownData a.data, .dec, true, '0', 0⟩ := by
  unfold accessData shownData
  split_ifs with hword hbytes
  · exact word_eq t a hword
  · rw [foldl_bytes_eq, dec_mk]
  · exact stripped_eq t a.data

theorem Ostream.head_eq (base : Base) (showbase : Bool) (fill : Char) :
    ((Ostream.mk t base showbase fill 0).showBase.hex.setfill '0' |>.str "TSC=0x"
      |>.number a.tsc.toNat |>.str ", " |>.str a.kind |>.str " " |>.str a.direction |>.showBase |>.hex
      |>.number a.physical_address.toNat |>.str " = ") = ⟨t ++ a.head, .hex, true, '0', 0⟩ := by
  have hcomma : ", ".toList = [','] ++ " ".toList := rfl
  have hequals : " = ".toList = [' '] ++ "= ".toList := rfl
  unfold HardwareAccess.head
  simp only [showBase_mk, hex_mk, setfill_mk, str_mk_zero, number_mk_zero, hcomma, hequals,
    List.append_assoc]

/-- Whatever the stream's base and fill character are, the line is printed, and the base is left to be
the decimal one. -/
theorem Ostream.hardwareAccess_eq (base : Base) (showbase : Bool) (fill : Char) :
    (Ostream.mk t base showbase fill 0).hardwareAccess a = ⟨t ++ a.line, .dec, true, '0', 0⟩ := by
  unfold hardwareAccess
  rw [head_eq, accessData_eq, HardwareAccess.line, List.append_assoc]

end

/-- The `0x` of the timestamp is printed twice. -/
example : (({} : Ostream).hardwareAccess ⟨0x100, 0x1000, 5, 0, 0, [0x15, 0]⟩).text =
    "TSC=0x0x100, MMIO write to 0x1000 = 0x15".toList := by decide

/-! ## What the data's text tells -/

/-- The data `e` is a word, and it is the word `d` with a zero byte above it, where the digits of `d` with
their `0x` fill the field of `e`. -/
def Padded (d e : List UInt8) : Prop :=
  e = d ++ [0] ∧ e.length ≤ 8 ∧ ∃ b ∈ d.getLast?, 0x10 ≤ b

/-- Data that is printed the same: the same data, two long ones of the same size, or two words of which
one is padded to be the other. -/
def DataLooksLike (d e : List UInt8) : Prop :=
  d = e ∨ (32 < d.length ∧ d.length = e.length) ∨ Padded d e ∨ Padded e d

section

variable {d e : List UInt8}

theorem length_digits_le (hd : d ≠ []) : (Nat.toDigits 16 (ofBytes d)).length ≤ 2 * d.length := by
  have hpos : 0 < d.length := List.length_pos_iff.mpr hd
  have hlt := ofBytes_lt d
  rw [show (256 : ℕ) = 16 ^ 2 from rfl, ← pow_mul] at hlt
  exact (Nat.length_toDigits_le_iff (by norm_num) (by omega)).mpr hlt

/-- All digits of the data are needed when its last byte needs two. -/
theorem length_digits_eq_iff (d : List UInt8) :
    (Nat.toDigits 16 (ofBytes d)).length = 2 * d.length ↔ ∃ b ∈ d.getLast?, 0x10 ≤ b := by
  rcases List.eq_nil_or_concat' d with rfl | ⟨bs, b, rfl⟩
  · simp [ofBytes]
  · have hle := length_digits_le (show bs ++ [b] ≠ [] by simp)
    have hfew : (Nat.toDigits 16 (ofBytes (bs ++ [b]))).length ≤ 2 * bs.length + 1 ↔ b.toNat < 16 := by
      have hlow := ofBytes_lt bs
      rw [Nat.length_toDigits_le_iff (by norm_num) (Nat.succ_pos _), ofBytes_append_singleton, pow_succ,
        pow_mul, show (16 : ℕ) ^ 2 = 256 from rfl]
      constructor
      · intro h
        by_contra hb
        have hmul := Nat.mul_le_mul_left (256 ^ bs.length) (Nat.not_lt.mp hb)
        omega
      · intro h
        have hmul := Nat.mul_le_mul_left (256 ^ bs.length) (Nat.succ_le_of_lt h)
        rw [Nat.mul_succ] at hmul
        omega
    have hlast : (∃ c ∈ (bs ++ [b]).getLast?, 0x10 ≤ c) ↔ ¬ b.toNat < 16 := by
      simp [UInt8.le_iff_toNat_le]
    rw [hlast, ← hfew, List.length_append, List.length_singleton] at *
    omega

theorem ofBytes_padded (h : e = d ++ [0]) : ofBytes e = ofBytes d := by
  rw [h]
  exact ofBytes_append_zeros d 1

/-- Bytes that are as many, and have the same value, are the same. -/
theorem eq_of_ofBytes (hlen : d.length = e.length) (h : ofBytes d = ofBytes e) : d = e := by
  rw [← toBytes_ofBytes d, ← toBytes_ofBytes e, hlen, h]

/-- The shorter one of two words with the same text is the other one, or is padded to be the other one. -/
theorem wordText_eq_of_le (hle : d.length ≤ e.length) (he : e.length ≤ 8)
    (h : wordText d = wordText e) : d = e ∨ Padded d e := by
  have hvalue : ofBytes d = ofBytes e := leftpad_numeral_injective h
  rcases hle.eq_or_lt with hlen | hlt
  · exact .inl (eq_of_ofBytes hlen hvalue)
  · -- The field of the longer word is filled by the number and its prefix.
    have hlength := congrArg List.length h
    rw [wordText, wordText, List.length_leftpad, List.length_leftpad, hvalue] at hlength
    have hnonzero : ofBytes e ≠ 0 := by
      intro hzero
      rw [hzero, numeral_showbase_zero, List.length_singleton] at hlength
      omega
    rw [length_numeral_showbase hnonzero, ← hvalue] at hlength
    have hd : d ≠ [] := by
      rintro rfl
      exact hnonzero hvalue.symm
    have hdigits := length_digits_le hd
    refine .inr ⟨?_, he, (length_digits_eq_iff d).mp (by omega)⟩
    refine eq_of_ofBytes ?_ (hvalue.symm.trans (ofBytes_padded rfl).symm)
    rw [List.length_append, List.length_singleton]
    omega

theorem Padded.length_le (h : Padded d e) : d.length ≤ 8 := by
  have hle := h.2.1
  rw [h.1, List.length_append] at hle
  omega

theorem Padded.wordText_eq (h : Padded d e) : wordText d = wordText e := by
  obtain ⟨hpad, -, hlast⟩ := h
  have hvalue := ofBytes_padded hpad
  have hdigits := (length_digits_eq_iff d).mpr hlast
  have hd : 0 < d.length := by
    rw [List.length_pos_iff]
    rintro rfl
    simp at hlast
  have hnonzero : ofBytes d ≠ 0 := by
    intro hzero
    rw [hzero, Nat.toDigits_zero, List.length_singleton] at hdigits
    omega
  have hlength := length_numeral_showbase hnonzero
  have hlen : e.length = d.length + 1 := by
    rw [hpad, List.length_append, List.length_singleton]
  rw [wordText, wordText, hvalue, List.leftpad, List.leftpad, hlength, hdigits, hlen,
    show d.length * 2 - (2 * d.length + 2) = 0 by omega,
    show (d.length + 1) * 2 - (2 * d.length + 2) = 0 by omega]

theorem wordText_inj (hd : d.length ≤ 8) (he : e.length ≤ 8) :
    wordText d = wordText e ↔ d = e ∨ Padded d e ∨ Padded e d := by
  constructor
  · intro h
    rcases Nat.le_total d.length e.length with hle | hle
    · rcases wordText_eq_of_le hle he h with heq | hpad
      · exact .inl heq
      · exact .inr (.inl hpad)
    · rcases wordText_eq_of_le hle hd h.symm with heq | hpad
      · exact .inl heq.symm
      · exact .inr (.inr hpad)
  · rintro (rfl | hpad | hpad)
    · rfl
    · exact hpad.wordText_eq
    · exact hpad.wordText_eq.symm

theorem spacedText_inj : spacedText d = spacedText e ↔ d = e := by
  have hbyte : Determines (fun _ _ : UInt8 => True)
      (fun ch => (numeral .hex true ch.toNat).leftpad 2 '0' ++ [' ']) fun a b => a = b := by
    have hspace (ch : UInt8) : ' ' ∉ (numeral .hex true ch.toNat).leftpad 2 '0' :=
      not_mem_leftpad (by decide) (not_mem_numeral_showbase (by decide) (by decide) _)
    refine .terminated (fun a b _ => ⟨hspace a, hspace b⟩) fun a b _ h => ?_
    exact UInt8.toNat_inj.mp (leftpad_numeral_injective h)
  constructor
  · intro h
    exact List.forall₂_eq_eq_eq ▸ hbyte.flatMap_eq (by simp) d e (fun _ _ _ _ => trivial) h
  · rintro rfl
    rfl

theorem strippedText_inj : strippedText d = strippedText e ↔ d.length = e.length := by
  unfold strippedText
  rw [List.append_left_inj, List.append_right_inj]
  exact (toDigits_injective (by norm_num) (by norm_num)).eq_iff

theorem shownData_word (h : d.length ≤ 8) : shownData d = wordText d := if_pos h

theorem shownData_spaced (h : 8 < d.length) (h' : d.length ≤ 32) : shownData d = spacedText d := by
  rw [shownData, if_neg (Nat.not_le.mpr h), if_pos h']

theorem shownData_stripped (h : 32 < d.length) : shownData d = strippedText d := by
  rw [shownData, if_neg (by omega), if_neg (by omega)]

/-- The characters that do not occur in the text of short data, and may occur in that of long data. -/
theorem not_mem_wordText {c : Char} (hx : c ≠ 'x') (hc : ∀ n < 16, c ≠ Nat.digitChar n) :
    c ∉ wordText d :=
  not_mem_leftpad (hc 0 (by norm_num)) (not_mem_numeral_showbase hx hc _)

theorem not_mem_spacedText {c : Char} (hspace : c ≠ ' ') (hx : c ≠ 'x')
    (hc : ∀ n < 16, c ≠ Nat.digitChar n) : c ∉ spacedText d := by
  rw [spacedText, List.mem_flatMap]
  rintro ⟨ch, -, hmem⟩
  rcases List.mem_append.mp hmem with hmem | hmem
  · exact not_mem_leftpad (hc 0 (by norm_num)) (not_mem_numeral_showbase hx hc _) hmem
  · exact hspace (List.mem_singleton.mp hmem)

/-- Only the text of data that is stripped has a `<`. -/
theorem mem_shownData_lt : '<' ∈ shownData d ↔ 32 < d.length := by
  rcases Nat.lt_or_ge 32 d.length with hlong | hle
  · have hmem : '<' ∈ strippedText d := by
      unfold strippedText
      exact List.mem_append_left _ (List.mem_append_left _ (by decide))
    rw [shownData_stripped hlong]
    exact iff_of_true hmem hlong
  · refine iff_of_false ?_ (Nat.not_lt.mpr hle)
    rcases Nat.lt_or_ge 8 d.length with hbytes | hword
    · rw [shownData_spaced hbytes hle]
      exact not_mem_spacedText (by decide) (by decide) (by decide)
    · rw [shownData_word hword]
      exact not_mem_wordText (by decide) (by decide)

/-- Only the text of a word has no space. -/
theorem mem_shownData_space : ' ' ∈ shownData d ↔ 8 < d.length := by
  rcases Nat.lt_or_ge 8 d.length with hlong | hword
  · refine iff_of_true ?_ hlong
    rcases Nat.lt_or_ge 32 d.length with hstripped | hbytes
    · rw [shownData_stripped hstripped]
      unfold strippedText
      exact List.mem_append_right _ (by decide)
    · obtain ⟨ch, hch⟩ := List.exists_mem_of_length_pos (show 0 < d.length by omega)
      rw [shownData_spaced hlong hbytes, spacedText, List.mem_flatMap]
      exact ⟨ch, hch, by simp⟩
  · rw [shownData_word hword]
    exact iff_of_false (not_mem_wordText (by decide) (by decide)) (Nat.not_lt.mpr hword)

theorem newline_not_mem_shownData : '\n' ∉ shownData d := by
  unfold shownData
  split_ifs
  · exact not_mem_wordText (by decide) (by decide)
  · exact not_mem_spacedText (by decide) (by decide) (by decide)
  · have hdigits := not_mem_numeral (by norm_num) (by norm_num)
      (show ∀ n < 16, '\n' ≠ Nat.digitChar n by decide) d.length (b := 10)
    unfold strippedText
    rw [List.mem_append, List.mem_append]
    rintro ((h | h) | h)
    · exact absurd h (by decide)
    · exact hdigits h
    · exact absurd h (by decide)

/-- The text of the data tells everything of it but what `DataLooksLike` leaves open. -/
theorem shownData_inj : shownData d = shownData e ↔ DataLooksLike d e := by
  constructor
  · intro h
    have hlong : 32 < d.length ↔ 32 < e.length := by rw [← mem_shownData_lt, h, mem_shownData_lt]
    have hmore : 8 < d.length ↔ 8 < e.length := by rw [← mem_shownData_space, h, mem_shownData_space]
    rcases Nat.lt_or_ge 32 d.length with hd | hd
    · rw [shownData_stripped hd, shownData_stripped (hlong.mp hd), strippedText_inj] at h
      exact .inr (.inl ⟨hd, h⟩)
    · rcases Nat.lt_or_ge 8 d.length with hd' | hd'
      · rw [shownData_spaced hd' hd, shownData_spaced (hmore.mp hd') (by omega), spacedText_inj] at h
        exact .inl h
      · rw [shownData_word hd', shownData_word (by omega), wordText_inj hd' (by omega)] at h
        exact h.imp_right .inr
  · rintro (rfl | ⟨hd, hlen⟩ | hpad | hpad)
    · rfl
    · rw [shownData_stripped hd, shownData_stripped (hlen ▸ hd), strippedText_inj, hlen]
    · rw [shownData_word hpad.length_le, shownData_word hpad.2.1, hpad.wordText_eq]
    · rw [shownData_word hpad.length_le, shownData_word hpad.2.1, hpad.wordText_eq]

end

/-! ## What the line tells -/

namespace HardwareAccess

/-- What is printed before the data is the same. -/
structure SameHead (a b : HardwareAccess) : Prop where
  tsc : a.tsc = b.tsc
  kind : a.kind = b.kind
  isWrite : a.isWrite = b.isWrite
  physical_address : a.physical_address = b.physical_address

/-- The accesses are printed the same. -/
structure LooksLike (a b : HardwareAccess) : Prop extends SameHead a b where
  data : DataLooksLike a.data b.data

variable {a b : HardwareAccess}

/-- The four kinds. -/
theorem kind_mem (a : HardwareAccess) : a.kind ∈ ["PCI", "MMIO", "Port", "Unknown type"] := by
  unfold kind
  split_ifs <;> decide

/-- What is printed of the kind and of the direction. -/
def label (kind : String) (isWrite : Bool) : List Char :=
  kind.toList ++ " ".toList ++ (if isWrite then "write to " else "read from ").toList

/-- No label is the beginning of another one. -/
theorem label_prefixFree : ∀ k ∈ ["PCI", "MMIO", "Port", "Unknown type"],
    ∀ l ∈ ["PCI", "MMIO", "Port", "Unknown type"], ∀ v w, label k v <+: label l w → k = l ∧ v = w := by
  decide

theorem label_determines : Determines (fun a b : HardwareAccess => a.tsc = b.tsc)
    (fun a => a.kind.toList ++ " ".toList ++ a.direction.toList)
    fun a b => a.tsc = b.tsc ∧ a.kind = b.kind ∧ a.isWrite = b.isWrite := by
  have hlabel (a b : HardwareAccess) (h : label a.kind a.isWrite <+: label b.kind b.isWrite) :
      a.kind = b.kind ∧ a.isWrite = b.isWrite :=
    label_prefixFree _ a.kind_mem _ b.kind_mem _ _ h
  refine .of_prefixFree (fun a b _ h => ?_) (fun _ _ h => h.symm) fun a b htsc h => ⟨htsc, ?_⟩
  · obtain ⟨hkind, hwrite⟩ := hlabel a b h
    rw [direction, direction, hkind, hwrite]
  · exact hlabel a b (by rw [label, label]; exact h ▸ List.prefix_rfl)

/-- A hexadecimal number, up to a character that does not occur in one. -/
theorem number_determines {P : HardwareAccess → HardwareAccess → Prop} {c : Char}
    (k : HardwareAccess → UInt64) (hx : c ≠ 'x') (hc : ∀ d < 16, c ≠ Nat.digitChar d) :
    Determines P (fun a => numeral .hex true (k a).toNat ++ [c]) fun a b => P a b ∧ k a = k b :=
  .keep (.terminated
    (fun _ _ _ => ⟨not_mem_numeral_showbase hx hc _, not_mem_numeral_showbase hx hc _⟩)
    fun _ _ _ h => UInt64.toNat_inj.mp (numeral_injective h))

theorem head_determines : Determines (fun _ _ => True) head SameHead := by
  have htsc : Determines (fun _ _ => True) (fun a => numeral .hex true a.tsc.toNat ++ [','])
      fun a b : HardwareAccess => a.tsc = b.tsc :=
    (number_determines tsc (by decide) (by decide)).consequence (fun _ _ h => h) fun _ _ _ h => h.2
  have haddress := number_determines (c := ' ')
    (P := fun a b => a.tsc = b.tsc ∧ a.kind = b.kind ∧ a.isWrite = b.isWrite) physical_address
    (by decide) (by decide)
  unfold head
  refine .append (.append (.append (.append (.literal _) htsc) (.append (.literal _) label_determines))
    haddress) ?_
  exact (Determines.literal _).consequence (fun _ _ h => h)
    fun a b ⟨⟨htsc, hkind, hwrite⟩, haddress⟩ _ => ⟨htsc, hkind, hwrite, haddress⟩

theorem SameHead.head_eq (h : SameHead a b) : a.head = b.head := by
  unfold head direction
  rw [h.tsc, h.kind, h.isWrite, h.physical_address]

/-- The line of an access, up to its end, tells what it looks like. -/
theorem line_determines :
    Determines (fun _ _ => True) (fun a => a.line ++ ['\n']) LooksLike := by
  have hdata : Determines SameHead (fun a => shownData a.data ++ ['\n'])
      fun a b => SameHead a b ∧ DataLooksLike a.data b.data :=
    .keep (.terminated (fun _ _ _ => ⟨newline_not_mem_shownData, newline_not_mem_shownData⟩)
      fun _ _ _ h => shownData_inj.mp h)
  have hassoc : (fun a : HardwareAccess => a.line ++ ['\n']) =
      fun a => a.head ++ (shownData a.data ++ ['\n']) := by
    funext a
    rw [line, List.append_assoc]
  rw [hassoc]
  exact (head_determines.append hdata).consequence (fun _ _ h => h)
    fun a b _ ⟨hhead, hdata⟩ => ⟨hhead, hdata⟩

/-- Two accesses have the same line exactly when they look alike. -/
theorem line_inj : a.line = b.line ↔ LooksLike a b := by
  constructor
  · intro h
    exact line_determines.of_eq trivial (by rw [h])
  · intro h
    rw [line, line, h.toSameHead.head_eq, shownData_inj.mpr h.data]

end HardwareAccess

end RvnSyncPoint
