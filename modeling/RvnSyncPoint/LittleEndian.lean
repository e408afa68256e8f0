import Mathlib.Tactic

/-!
# Little-endian integers

A fixed-width integer is stored as its bytes, the least significant first. `ofBytes` reads a
sequence of bytes and `toBytes` writes a width; what was written is read back (`ofBytes_toBytes`).
`leAt` reads a field at an offset of a byte string.
-/

namespace RvnSyncPoint.LittleEndian

/-- The value of a sequence of bytes, the least significant byte first. -/
def ofBytes : List UInt8 → ℕ
  | [] => 0
  | b :: bs => b.toNat + 256 * ofBytes bs

/-- The `k` low bytes of `n`, the least significant byte first. -/
def toBytes : ℕ → ℕ → List UInt8
  | 0, _ => []
  | k + 1, n => UInt8.ofNat n :: toBytes k (n / 256)

@[simp]
theorem length_toBytes (k n : ℕ) : (toBytes k n).length = k := by
  induction k generalizing n with
  | zero => rfl
  | succ k ih => simp [toBytes, ih]

/-- Reading back `k` written bytes gives the number modulo `256^k`. -/
theorem ofBytes_toBytes_mod (k n : ℕ) : ofBytes (toBytes k n) = n % 256 ^ k := by
  induction k generalizing n with
  | zero => simp [toBytes, ofBytes, Nat.mod_one]
  | succ k ih =>
    have hb : (UInt8.ofNat n).toNat = n % 256 := by simp
    rw [toBytes, ofBytes, ih, hb, pow_succ', Nat.mod_mul]

/-- A number that fits in `k` bytes is read back as it was written. -/
theorem ofBytes_toBytes {k n : ℕ} (h : n < 256 ^ k) : ofBytes (toBytes k n) = n := by
  rw [ofBytes_toBytes_mod, Nat.mod_eq_of_lt h]

/-- The value of `k` bytes is below `256^k`. -/
theorem ofBytes_lt (bs : List UInt8) : ofBytes bs < 256 ^ bs.length := by
  induction bs with
  | nil => simp [ofBytes]
  | cons b bs ih =>
    have hb : b.toNat < 256 := b.toNat_lt
    rw [ofBytes, List.length_cons, pow_succ]
    omega

/-- Bytes that are read are written back. -/
theorem toBytes_ofBytes (bs : List UInt8) : toBytes bs.length (ofBytes bs) = bs := by
  induction bs with
  | nil => rfl
  | cons b bs ih =>
    have hb : b.toNat < 256 := b.toNat_lt
    have hlow : UInt8.ofNat (b.toNat + 256 * ofBytes bs) = b := by
      refine UInt8.toNat_inj.mp ?_
      rw [UInt8.toNat_ofNat']
      omega
    have hhigh : (b.toNat + 256 * ofBytes bs) / 256 = ofBytes bs := by omega
    rw [ofBytes, List.length_cons, toBytes, hlow, hhigh, ih]

/-- Only zero bytes have the value zero when nothing else is there to read. -/
@[simp]
theorem ofBytes_replicate_zero (k : ℕ) : ofBytes (List.replicate k 0) = 0 := by
  induction k with
  | zero => rfl
  | succ k ih => simp [List.replicate_succ, ofBytes, ih]

/-- Zeros above the bytes of a number do not change it. -/
theorem ofBytes_append_zeros (bs : List UInt8) (k : ℕ) :
    ofBytes (bs ++ List.replicate k 0) = ofBytes bs := by
  induction bs with
  | nil => exact ofBytes_replicate_zero k
  | cons b bs ih => rw [List.cons_append, ofBytes, ih, ofBytes]

/-- The last byte is the most significant one. -/
theorem ofBytes_append_singleton (bs : List UInt8) (b : UInt8) :
    ofBytes (bs ++ [b]) = ofBytes bs + 256 ^ bs.length * b.toNat := by
  induction bs with
  | nil => simp [ofBytes]
  | cons c bs ih =>
    rw [List.cons_append, ofBytes, ih, ofBytes, List.length_cons, pow_succ]
    ring

/-- A number is zero when all of its bytes are. -/
theorem ofBytes_eq_zero_iff (bs : List UInt8) : ofBytes bs = 0 ↔ ∀ b ∈ bs, b = 0 := by
  induction bs with
  | nil => simp [ofBytes]
  | cons b bs ih =>
    have hb : b = 0 ↔ b.toNat = 0 := UInt8.toNat_inj.symm
    rw [ofBytes, List.forall_mem_cons, ← ih, hb]
    omega

/-- A field of 64 bits of which bytes are missing is zero when those that are there are. -/
theorem ofNat_ofBytes_take_eq_zero_iff (bs : List UInt8) :
    UInt64.ofNat (ofBytes (bs.take 8)) = 0 ↔ ∀ b ∈ bs.take 8, b = 0 := by
  have hlt : ofBytes (bs.take 8) < 2 ^ 64 := by
    refine lt_of_lt_of_le (ofBytes_lt _) ?_
    exact Nat.pow_le_pow_right (by norm_num : 0 < 256) (List.length_take_le _ _)
  rw [← ofBytes_eq_zero_iff, ← UInt64.toNat_inj, UInt64.toNat_ofNat_of_lt' hlt]
  rfl

/-- The `k`-byte field at the offset `o` of `c`. -/
def leAt (c : List UInt8) (o k : ℕ) : ℕ := ofBytes ((c.drop o).take k)

/-- A field of `k` bytes is below `256^k`. -/
theorem leAt_lt (c : List UInt8) (o k : ℕ) : leAt c o k < 256 ^ k :=
  lt_of_lt_of_le (ofBytes_lt _) (Nat.pow_le_pow_right (by norm_num) (List.length_take_le _ _))

/-- A field beyond the end of a byte string is zero. -/
theorem leAt_end {c : List UInt8} {o : ℕ} (k : ℕ) (h : c.length ≤ o) : leAt c o k = 0 := by
  rw [leAt, List.drop_eq_nil_of_le h, List.take_nil]
  rfl

/-- A field where a number was written. -/
theorem leAt_eq_of_drop {c : List UInt8} {o k n : ℕ} (hc : toBytes k n <+: c.drop o)
    (h : n < 256 ^ k) : leAt c o k = n := by
  have htake : (c.drop o).take k = toBytes k n := by
    have hprefix := List.prefix_iff_eq_take.mp hc
    rw [length_toBytes] at hprefix
    exact hprefix.symm
  rw [leAt, htake, ofBytes_toBytes h]

/-- The bytes of a field inside a byte string. -/
theorem toBytes_leAt {c : List UInt8} {o k : ℕ} (h : o + k ≤ c.length) :
    toBytes k (leAt c o k) <+: c.drop o := by
  have hlen : ((c.drop o).take k).length = k := by
    rw [List.length_take, List.length_drop]
    omega
  have hbytes := toBytes_ofBytes ((c.drop o).take k)
  rw [hlen] at hbytes
  rw [leAt, hbytes]
  exact List.take_prefix _ _

/-- A field that begins inside the first of two parts, and ends there, is a field of that part. -/
theorem leAt_append_left {a b : List UInt8} {o k : ℕ} (h : o + k ≤ a.length) :
    leAt (a ++ b) o k = leAt a o k := by
  rw [leAt, leAt, List.drop_append_of_le_length (by omega),
    List.take_append_of_le_length (by rw [List.length_drop]; omega)]

/-- A field of the second of two parts. -/
theorem leAt_append_right (a b : List UInt8) (o k : ℕ) :
    leAt (a ++ b) (a.length + o) k = leAt b o k := by
  have hnil : a.drop (a.length + o) = [] := List.drop_eq_nil_of_le (Nat.le_add_right _ _)
  rw [leAt, leAt, List.drop_append, hnil, List.nil_append, Nat.add_sub_cancel_left]

/-- The field that begins a byte string where a number was written. -/
theorem leAt_toBytes_append {k n : ℕ} (bs : List UInt8) (h : n < 256 ^ k) :
    leAt (toBytes k n ++ bs) 0 k = n := by
  rw [leAt_append_left (by simp), leAt, List.drop_zero, List.take_of_length_le (by simp),
    ofBytes_toBytes h]

/-- A field after the one that begins a byte string. -/
theorem leAt_toBytes_append_of_le {k n o j : ℕ} (bs : List UInt8) (h : k ≤ o) :
    leAt (toBytes k n ++ bs) o j = leAt bs (o - k) j := by
  have hskip := leAt_append_right (toBytes k n) bs (o - k) j
  rw [length_toBytes, Nat.add_sub_cancel' h] at hskip
  exact hskip

/-! ## Parts of a byte string -/

section

variable {a b c : List UInt8} {o : ℕ}

/-- A part of a byte string, followed by another one. -/
theorem prefix_append (ha : a <+: c.drop o) (hb : b <+: c.drop (o + a.length)) :
    a ++ b <+: c.drop o := by
  obtain ⟨rest, hrest⟩ := ha
  rw [← List.drop_drop, ← hrest, List.drop_left] at hb
  rw [← hrest]
  exact (List.prefix_append_right_inj a).mpr hb

/-- The second of two parts. -/
theorem prefix_drop (h : a ++ b <+: c.drop o) : b <+: c.drop (o + a.length) := by
  obtain ⟨rest, hrest⟩ := h
  rw [← List.drop_drop, ← hrest, List.append_assoc, List.drop_left]
  exact List.prefix_append b rest

end

/-! ## Sequences of items of the same length -/

section

variable {α : Type} {encode : α → List UInt8} {n : ℕ}

theorem length_flatMap_encode (hlen : ∀ x, (encode x).length = n) (xs : List α) :
    (xs.flatMap encode).length = n * xs.length := by
  induction xs with
  | nil => rfl
  | cons x xs ih =>
    rw [List.flatMap_cons, List.length_append, hlen, ih, List.length_cons]
    ring

/-- The `i`-th item is decoded at its offset, if an item is decoded from what it begins. -/
theorem decode_flatMap_encode {decode : List UInt8 → ℕ → α}
    (hright : ∀ a b o, decode (a ++ b) (a.length + o) = decode b o)
    (hlen : ∀ x, (encode x).length = n) (hdecode : ∀ x rest, decode (encode x ++ rest) 0 = x)
    (xs : List α) (i : ℕ) (h : i < xs.length) : decode (xs.flatMap encode) (n * i) = xs[i] := by
  induction xs generalizing i with
  | nil => simp at h
  | cons x xs ih =>
    rw [List.flatMap_cons]
    cases i with
    | zero => exact hdecode x _
    | succ i =>
      have hsum : n * (i + 1) = (encode x).length + n * i := by
        rw [hlen]
        ring
      rw [hsum, hright, ih i (by simpa using h)]
      rfl

end

end RvnSyncPoint.LittleEndian
