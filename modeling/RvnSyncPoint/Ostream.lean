import RvnSyncPoint.Printing

/-!
# `std::ostream`

An output stream that does not fail: the text written so far and the formatting state, of which a
formatted insertion uses up the field width and everything else persists. Text is aligned to the right.
A character is a byte, and is written as the character with its number.
-/

namespace RvnSyncPoint

/-- The base in which integers are printed. -/
inductive Base where
  | dec
  | hex
deriving DecidableEq

def Base.radix : Base → ℕ
  | .dec => 10
  | .hex => 16

structure Ostream where
  text : List Char := []
  base : Base := .dec
  showbase : Bool := false
  fill : Char := ' '
  width : ℕ := 0
deriving DecidableEq

/-- An unsigned number as a stream prints it. Zero has no prefix. -/
def numeral (base : Base) (showbase : Bool) (n : ℕ) : List Char :=
  if showbase && base = .hex && n != 0 then '0' :: 'x' :: Nat.toDigits 16 n
  else Nat.toDigits base.radix n

namespace Ostream

/-! ## Manipulators -/

/-- `std::dec`. -/
def dec (out : Ostream) : Ostream := { out with base := .dec }

/-- `std::hex`. -/
def hex (out : Ostream) : Ostream := { out with base := .hex }

/-- `std::showbase`. -/
def showBase (out : Ostream) : Ostream := { out with showbase := true }

/-- `std::setfill(c)`. -/
def setfill (c : Char) (out : Ostream) : Ostream := { out with fill := c }

/-- `std::setw(n)`. -/
def setw (n : ℕ) (out : Ostream) : Ostream := { out with width := n }

/-! ## Insertions -/

/-- A formatted insertion, which uses up the width. -/
def insert (s : List Char) (out : Ostream) : Ostream :=
  { out with text := out.text ++ s.leftpad out.width out.fill, width := 0 }

/-- `out << "…"`. -/
def str (s : String) (out : Ostream) : Ostream := out.insert s.toList

/-- `out << c` for a character. -/
def char (c : Char) (out : Ostream) : Ostream := out.insert [c]

/-- `out << s` for a `std::string`. -/
def bytes (s : List UInt8) (out : Ostream) : Ostream := out.insert (s.map Char.ofUInt8)

/-- `out << n` for an unsigned number, or a signed one that is not negative. -/
def number (n : ℕ) (out : Ostream) : Ostream := out.insert (numeral out.base out.showbase n)

/-- `std::endl`, which is not formatted. -/
def endl (out : Ostream) : Ostream := { out with text := out.text ++ ['\n'] }

/-- `out.write(s, n)`, which is not formatted. -/
def write (s : List UInt8) (out : Ostream) : Ostream :=
  { out with text := out.text ++ s.map Char.ofUInt8 }

/-! ## What is done to a stream -/

section

variable (t : List Char) (base : Base) (showbase : Bool) (fill : Char) (width : ℕ)

@[simp]
theorem dec_mk : (Ostream.mk t base showbase fill width).dec = ⟨t, .dec, showbase, fill, width⟩ := rfl

@[simp]
theorem hex_mk : (Ostream.mk t base showbase fill width).hex = ⟨t, .hex, showbase, fill, width⟩ := rfl

@[simp]
theorem showBase_mk :
    (Ostream.mk t base showbase fill width).showBase = ⟨t, base, true, fill, width⟩ := rfl

@[simp]
theorem setfill_mk (c : Char) :
    (Ostream.mk t base showbase fill width).setfill c = ⟨t, base, showbase, c, width⟩ := rfl

@[simp]
theorem endl_mk :
    (Ostream.mk t base showbase fill width).endl = ⟨t ++ ['\n'], base, showbase, fill, width⟩ := rfl

@[simp]
theorem insert_mk_zero (s : List Char) :
    (Ostream.mk t base showbase fill 0).insert s = ⟨t ++ s, base, showbase, fill, 0⟩ := by
  simp [insert, List.leftpad]

@[simp]
theorem str_mk_zero (s : String) :
    (Ostream.mk t base showbase fill 0).str s = ⟨t ++ s.toList, base, showbase, fill, 0⟩ :=
  insert_mk_zero ..

@[simp]
theorem bytes_mk_zero (s : List UInt8) : (Ostream.mk t base showbase fill 0).bytes s =
    ⟨t ++ s.map Char.ofUInt8, base, showbase, fill, 0⟩ :=
  insert_mk_zero ..

@[simp]
theorem number_mk_zero (n : ℕ) : (Ostream.mk t base showbase fill 0).number n =
    ⟨t ++ numeral base showbase n, base, showbase, fill, 0⟩ :=
  insert_mk_zero ..

end

end Ostream

/-- Different bytes are different characters. -/
theorem ofUInt8_injective : Function.Injective Char.ofUInt8 :=
  fun _ _ h => UInt8.toNat_inj.mp (congrArg Char.toNat h)

@[simp]
theorem numeral_dec (showbase : Bool) (n : ℕ) : numeral .dec showbase n = Nat.toDigits 10 n := by
  simp [numeral, Base.radix]

@[simp]
theorem numeral_hex (n : ℕ) : numeral .hex false n = Nat.toDigits 16 n := by
  simp [numeral, Base.radix]

/-! ## Hexadecimal numbers with their base -/

section

open Printing

variable {n m : ℕ}

theorem numeral_showbase_zero : numeral .hex true 0 = ['0'] := rfl

theorem numeral_showbase (h : n ≠ 0) : numeral .hex true n = '0' :: 'x' :: Nat.toDigits 16 n := by
  simp [numeral, h]

/-- The prefix does not change the value. -/
theorem valueOf_numeral (n : ℕ) : valueOf 16 (numeral .hex true n) = n := by
  rcases Nat.eq_zero_or_pos n with rfl | hpos
  · rfl
  · rw [numeral_showbase hpos.ne']
    exact valueOf_toDigits (by norm_num) le_rfl n

theorem numeral_injective : Function.Injective (numeral .hex true) := by
  intro n m h
  rw [← valueOf_numeral n, h, valueOf_numeral]

/-- The value can be read from a field of any width. -/
theorem leftpad_numeral_injective {v w : ℕ}
    (h : (numeral .hex true n).leftpad v '0' = (numeral .hex true m).leftpad w '0') : n = m := by
  have hvalue := congrArg (valueOf 16) h
  rwa [valueOf_leftpad rfl, valueOf_leftpad rfl, valueOf_numeral, valueOf_numeral] at hvalue

/-- Only digits and the `x` of the prefix occur. -/
theorem not_mem_numeral_showbase {c : Char} (hx : c ≠ 'x') (hc : ∀ d < 16, c ≠ Nat.digitChar d) (n : ℕ) :
    c ∉ numeral .hex true n := by
  have hzero : c ≠ '0' := hc 0 (by norm_num)
  have hdigits := not_mem_numeral (by norm_num) le_rfl hc n
  unfold numeral
  split_ifs
  · simp [hzero, hx, hdigits]
  · exact hdigits

theorem length_numeral_showbase (h : n ≠ 0) :
    (numeral .hex true n).length = (Nat.toDigits 16 n).length + 2 := by
  rw [numeral_showbase h, List.length_cons, List.length_cons]

end

end RvnSyncPoint
