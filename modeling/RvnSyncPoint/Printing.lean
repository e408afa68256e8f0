import Mathlib

/-!
# What a text determines

A printer is a function from values to texts. `Determines P f Q` says that the text which `f` prints of
a value, whatever is printed after it, determines where it ends and, of a value of which `P` is known,
`Q`: for two values in the relation `P` whose texts begin the same text, what follows is the same and
the values are in the relation `Q`. The rules are those of a relational Hoare logic in which the
printers are the commands: what is printed first may decide how the rest is printed.

The numerals, padded or not, are read back by `valueOf`.
-/

namespace RvnSyncPoint.Printing

/-- The text that `f` prints determines where it ends and, of a value of which `P` is known, `Q`. -/
def Determines {α : Type} (P : α → α → Prop) (f : α → List Char) (Q : α → α → Prop) : Prop :=
  ∀ a b s t, P a b → f a ++ s = f b ++ t → Q a b ∧ s = t

/-- A text that has a terminator after it, of which it has none itself. -/
theorem append_cons_inj {c : Char} {u v s t : List Char} (hu : c ∉ u) (hv : c ∉ v)
    (h : u ++ c :: s = v ++ c :: t) : u = v ∧ s = t := by
  rcases List.append_eq_append_iff.mp h with ⟨w, hw, hw'⟩ | ⟨w, hw, hw'⟩
  · cases w with
    | nil => exact ⟨by rw [hw, List.append_nil], (List.cons.inj hw').2⟩
    | cons x w =>
      obtain ⟨rfl, -⟩ := List.cons.inj hw'
      exact absurd (by rw [hw]; simp) hv
  · cases w with
    | nil => exact ⟨by rw [hw, List.append_nil], (List.cons.inj hw').2.symm⟩
    | cons x w =>
      obtain ⟨rfl, -⟩ := List.cons.inj hw'
      exact absurd (by rw [hw]; simp) hu

/-- The same, seen from the end. -/
theorem append_cons_inj_right {c : Char} {u v s t : List Char} (hs : c ∉ s) (ht : c ∉ t)
    (h : u ++ c :: s = v ++ c :: t) : u = v ∧ s = t := by
  have hreverse := congrArg List.reverse h
  simp only [List.reverse_append, List.reverse_cons, List.append_assoc, List.singleton_append] at hreverse
  obtain ⟨hst, huv⟩ := append_cons_inj (by simpa using hs) (by simpa using ht) hreverse
  exact ⟨List.reverse_injective huv, List.reverse_injective hst⟩

namespace Determines

variable {α β : Type} {P P' Q R : α → α → Prop} {f g : α → List Char}

/-- Two values with the same text. -/
theorem of_eq (h : Determines P f Q) {a b : α} (hP : P a b) (heq : f a = f b) : Q a b :=
  (h a b [] [] hP (by rw [heq])).1

/-- The rule of consequence. What was known before is still known. -/
theorem consequence (h : Determines P' f Q) (hP : ∀ a b, P a b → P' a b)
    (hR : ∀ a b, P a b → Q a b → R a b) : Determines P f R := by
  intro a b s t hab heq
  obtain ⟨hQ, hst⟩ := h a b s t (hP a b hab) heq
  exact ⟨hR a b hab hQ, hst⟩

/-- What is known of the values stays known. -/
theorem keep (h : Determines P f Q) : Determines P f fun a b => P a b ∧ Q a b :=
  h.consequence (fun _ _ hP => hP) fun _ _ hP hQ => ⟨hP, hQ⟩

/-- Two texts, one after the other. -/
theorem append (hf : Determines P f Q) (hg : Determines Q g R) :
    Determines P (fun a => f a ++ g a) R := by
  intro a b s t hab heq
  rw [List.append_assoc, List.append_assoc] at heq
  obtain ⟨hQ, hrest⟩ := hf a b _ _ hab heq
  exact hg a b s t hQ hrest

/-- A text that is always the same. -/
theorem literal (w : List Char) : Determines P (fun _ => w) P :=
  fun _ _ _ _ hab heq => ⟨hab, List.append_cancel_left heq⟩

/-- A text whose length is known. -/
theorem of_length (h : ∀ a b, P a b → (f a).length = (f b).length)
    (hQ : ∀ a b, P a b → f a = f b → Q a b) : Determines P f Q := by
  intro a b s t hab heq
  obtain ⟨hfab, hst⟩ := List.append_inj heq (h a b hab)
  exact ⟨hQ a b hab hfab, hst⟩

/-- A text of which none is the beginning of another one. -/
theorem of_prefixFree (h : ∀ a b, P a b → f a <+: f b → f a = f b) (hsymm : ∀ a b, P a b → P b a)
    (hQ : ∀ a b, P a b → f a = f b → Q a b) : Determines P f Q := by
  intro a b s t hab heq
  have hfab : f a = f b := by
    have hprefix : f b <+: f a ++ s := heq ▸ List.prefix_append _ _
    rcases List.prefix_or_prefix_of_prefix (List.prefix_append (f a) s) hprefix with hle | hle
    · exact h a b hab hle
    · exact (h b a (hsymm a b hab) hle).symm
  rw [hfab] at heq
  exact ⟨hQ a b hab hfab, List.append_cancel_left heq⟩

/-- A text up to the terminator `c`. -/
theorem terminated {c : Char} (hf : ∀ a b, P a b → c ∉ f a ∧ c ∉ f b)
    (hQ : ∀ a b, P a b → f a = f b → Q a b) : Determines P (fun a => f a ++ [c]) Q := by
  intro a b s t hab heq
  rw [List.append_assoc, List.append_assoc] at heq
  obtain ⟨hfab, hst⟩ := append_cons_inj (hf a b hab).1 (hf a b hab).2 heq
  exact ⟨hQ a b hab hfab, hst⟩

/-- A branch that shows in what it prints. -/
theorem ite_shown {p : α → Prop} [DecidablePred p]
    (hshown : ∀ a b s t, p a → ¬ p b → f a ++ s ≠ g b ++ t)
    (hf : Determines (fun a b => P a b ∧ p a ∧ p b) f Q)
    (hg : Determines (fun a b => P a b ∧ ¬ p a ∧ ¬ p b) g Q) :
    Determines P (fun a => if p a then f a else g a) Q := by
  intro a b s t hab heq
  dsimp only at heq
  by_cases hpa : p a <;> by_cases hpb : p b
  · rw [if_pos hpa, if_pos hpb] at heq
    exact hf a b s t ⟨hab, hpa, hpb⟩ heq
  · rw [if_pos hpa, if_neg hpb] at heq
    exact absurd heq (hshown a b s t hpa hpb)
  · rw [if_neg hpa, if_pos hpb] at heq
    exact absurd heq.symm (hshown b a t s hpb hpa)
  · rw [if_neg hpa, if_neg hpb] at heq
    exact hg a b s t ⟨hab, hpa, hpb⟩ heq

/-- The items of a list, one after the other, up to the end of the text. -/
theorem flatMap_eq {P : α → α → Prop} (h : Determines P f Q) (hne : ∀ a, f a ≠ []) :
    ∀ l m : List α, (∀ a ∈ l, ∀ b ∈ m, P a b) → l.flatMap f = m.flatMap f → List.Forall₂ Q l m
  | [], [], _, _ => .nil
  | [], b :: m, _, heq => by
    rw [List.flatMap_nil, List.flatMap_cons] at heq
    exact absurd (List.append_eq_nil_iff.mp heq.symm).1 (hne b)
  | a :: l, [], _, heq => by
    rw [List.flatMap_nil, List.flatMap_cons] at heq
    exact absurd (List.append_eq_nil_iff.mp heq).1 (hne a)
  | a :: l, b :: m, hP, heq => by
    rw [List.flatMap_cons, List.flatMap_cons] at heq
    obtain ⟨hQ, hrest⟩ := h a b _ _ (hP a (by simp) b (by simp)) heq
    exact .cons hQ (flatMap_eq h hne l m
      (fun x hx y hy => hP x (by simp [hx]) y (by simp [hy])) hrest)

/-- The items of a list, which begin with a character that what follows them does not begin with. -/
theorem many {κ : Type} {p q : κ → κ → Prop} {item : κ → List Char} {l : α → List κ} {c : Char}
    (hitem : Determines p item q) (hstart : ∀ k, ∃ t, item k = c :: t) (hg : ∀ a, ∃ x t, g a = x :: t ∧ x ≠ c)
    (hP : ∀ a b, P a b → ∀ k ∈ l a, ∀ m ∈ l b, p k m)
    (hrest : Determines (fun a b => P a b ∧ List.Forall₂ q (l a) (l b)) g Q) :
    Determines P (fun a => (l a).flatMap item ++ g a) Q := by
  -- The induction is on the two lists, whose values stay what they are.
  have hlists : ∀ l m : List κ, (∀ k ∈ l, ∀ n ∈ m, p k n) → ∀ a b s t,
      l.flatMap item ++ (g a ++ s) = m.flatMap item ++ (g b ++ t) →
        List.Forall₂ q l m ∧ g a ++ s = g b ++ t := by
    intro l
    induction l with
    | nil =>
      intro m _ a b s t heq
      cases m with
      | nil => exact ⟨.nil, heq⟩
      | cons n m =>
        obtain ⟨x, u, hga, hx⟩ := hg a
        obtain ⟨v, hv⟩ := hstart n
        rw [hga, List.flatMap_cons, hv] at heq
        exact absurd (List.cons.inj heq).1 hx
    | cons k l ih =>
      intro m hp a b s t heq
      cases m with
      | nil =>
        obtain ⟨x, u, hgb, hx⟩ := hg b
        obtain ⟨v, hv⟩ := hstart k
        rw [hgb, List.flatMap_cons, hv] at heq
        exact absurd (List.cons.inj heq).1.symm hx
      | cons n m =>
        rw [List.flatMap_cons, List.flatMap_cons, List.append_assoc, List.append_assoc] at heq
        obtain ⟨hkn, hrest⟩ := hitem k n _ _ (hp k (by simp) n (by simp)) heq
        obtain ⟨hlm, hst⟩ := ih m (fun k' hk' n' hn' => hp k' (by simp [hk']) n' (by simp [hn'])) a b s t hrest
        exact ⟨.cons hkn hlm, hst⟩
  intro a b s t hab heq
  rw [List.append_assoc, List.append_assoc] at heq
  obtain ⟨hlm, hst⟩ := hlists (l a) (l b) (hP a b hab) a b s t heq
  exact hrest a b s t ⟨hab, hlm⟩ hst

end Determines

/-! ## Numerals -/

/-- The value of a digit. A fill character stands for a zero. -/
def digitValue (c : Char) : ℕ :=
  if '0' ≤ c ∧ c ≤ '9' then c.toNat - '0'.toNat
  else if 'a' ≤ c ∧ c ≤ 'f' then c.toNat - 'a'.toNat + 10
  else 0

/-- The value of a numeral in the base `b`. -/
def valueOf (b : ℕ) (l : List Char) : ℕ := l.foldl (fun n c => b * n + digitValue c) 0

theorem digitValue_digitChar : ∀ d < 16, digitValue (Nat.digitChar d) = d := by decide

theorem valueOf_append_singleton (b : ℕ) (l : List Char) (c : Char) :
    valueOf b (l ++ [c]) = b * valueOf b l + digitValue c := by
  simp [valueOf]

/-- A fill character does not change the value. -/
theorem valueOf_leftpad {b w : ℕ} {c : Char} {l : List Char} (hc : digitValue c = 0) :
    valueOf b (l.leftpad w c) = valueOf b l := by
  have hfill : ∀ n, (List.replicate n c).foldl (fun m c => b * m + digitValue c) 0 = 0 := by
    intro n
    induction n with
    | zero => rfl
    | succ n ih => rw [List.replicate_succ, List.foldl_cons, hc]; simpa using ih
  rw [List.leftpad, valueOf, List.foldl_append, hfill, valueOf]

section

variable {b n m w : ℕ} {c : Char}

/-- A numeral has the value that it was made of. -/
theorem valueOf_toDigits (hb : 1 < b) (hb16 : b ≤ 16) (n : ℕ) : valueOf b (Nat.toDigits b n) = n := by
  induction n using Nat.strongRecOn with
  | ind n ih =>
    rw [Nat.toDigits_eq_if hb]
    split_ifs with hlt
    · simp [valueOf, digitValue_digitChar n (by omega)]
    · have hdigit := Nat.mod_lt n (show 0 < b by omega)
      rw [valueOf_append_singleton, ih (n / b) (Nat.div_lt_self (by omega) hb),
        digitValue_digitChar _ (by omega)]
      exact Nat.div_add_mod n b

theorem toDigits_injective (hb : 1 < b) (hb16 : b ≤ 16) : Function.Injective (Nat.toDigits b) := by
  intro n m h
  rw [← valueOf_toDigits hb hb16 n, h, valueOf_toDigits hb hb16]

theorem leftpad_toDigits_injective (hb : 1 < b) (hb16 : b ≤ 16) (hc : digitValue c = 0)
    (h : (Nat.toDigits b n).leftpad w c = (Nat.toDigits b m).leftpad w c) : n = m := by
  have hvalue := congrArg (valueOf b) h
  rwa [valueOf_leftpad hc, valueOf_leftpad hc, valueOf_toDigits hb hb16,
    valueOf_toDigits hb hb16] at hvalue

/-- The characters of a numeral are digits. -/
theorem exists_digit (hb : 1 < b) (hb16 : b ≤ 16) (n : ℕ) :
    ∀ c ∈ Nat.toDigits b n, ∃ d < 16, c = Nat.digitChar d := by
  induction n using Nat.strongRecOn with
  | ind n ih =>
    intro c hc
    rw [Nat.toDigits_eq_if hb] at hc
    split_ifs at hc with hlt
    · rw [List.mem_singleton] at hc
      exact ⟨n, by omega, hc⟩
    · rcases List.mem_append.mp hc with hc | hc
      · exact ih (n / b) (Nat.div_lt_self (by omega) hb) c hc
      · rw [List.mem_singleton] at hc
        have hdigit := Nat.mod_lt n (show 0 < b by omega)
        exact ⟨n % b, by omega, hc⟩

/-- A character that is no digit does not occur in a numeral, nor in a field that it does not fill. -/
theorem not_mem_numeral (hb : 1 < b) (hb16 : b ≤ 16) {x : Char} (hx : ∀ d < 16, x ≠ Nat.digitChar d)
    (n : ℕ) : x ∉ Nat.toDigits b n := by
  intro hmem
  obtain ⟨d, hd, hxd⟩ := exists_digit hb hb16 n x hmem
  exact hx d hd hxd

theorem not_mem_leftpad {x : Char} {l : List Char} (hx : x ≠ c) (hl : x ∉ l) : x ∉ l.leftpad w c := by
  rw [List.leftpad, List.mem_append, List.mem_replicate]
  rintro (⟨-, h⟩ | h)
  · exact hx h
  · exact hl h

/-- A text that does not begin with the fill character can be told from its field. -/
theorem leftpad_injective {l m : List Char} (hl : l.head? ≠ some c) (hm : m.head? ≠ some c)
    (h : l.leftpad w c = m.leftpad w c) : l = m := by
  have hdrop : ∀ {l : List Char}, l.head? ≠ some c → (l.leftpad w c).dropWhile (· == c) = l := by
    intro l hl
    rw [List.leftpad]
    induction w - l.length with
    | zero =>
      cases l with
      | nil => rfl
      | cons x l =>
        have hx : (x == c) = false := by simpa using hl
        simp [hx]
    | succ n ih => rw [List.replicate_succ, List.cons_append, List.dropWhile_cons, if_pos (by simp), ih]
  rw [← hdrop hl, h, hdrop hm]

/-- A numeral that fits into its field fills it. -/
theorem length_leftpad_toDigits (hb : 1 < b) (hw : 0 < w) (hn : n < b ^ w) :
    ((Nat.toDigits b n).leftpad w c).length = w := by
  have hle := (Nat.length_toDigits_le_iff hb hw).mpr hn
  rw [List.length_leftpad]
  omega

end

/-! ## Entries -/

/-- A named number, printed in hexadecimal in a field of fixed width: ` RAX=0000000000000001`. -/
structure Entry where
  name : String
  width : ℕ
  value : ℕ
deriving DecidableEq

namespace Entry

variable {x : Entry}

def text (x : Entry) : List Char :=
  ' ' :: x.name.toList ++ '=' :: (Nat.toDigits 16 x.value).leftpad x.width '0'

/-- The value fits into the field, and the name has no `=`. -/
structure Fits (x : Entry) : Prop where
  width_pos : 0 < x.width
  value_lt : x.value < 16 ^ x.width
  name : '=' ∉ x.name.toList

theorem Fits.length (h : x.Fits) :
    ((Nat.toDigits 16 x.value).leftpad x.width '0').length = x.width :=
  length_leftpad_toDigits (by norm_num) h.width_pos h.value_lt

/-- The names of the entries tell their widths. -/
def SameWidths (l m : List Entry) : Prop := ∀ x ∈ l, ∀ y ∈ m, x.name = y.name → x.width = y.width

/-- An entry, followed by anything. -/
theorem text_append_inj {x y : Entry} {s t : List Char} (hx : x.Fits) (hy : y.Fits)
    (hwidth : x.name = y.name → x.width = y.width) (h : x.text ++ s = y.text ++ t) :
    x = y ∧ s = t := by
  simp only [text, List.cons_append, List.append_assoc, List.cons.injEq, true_and] at h
  obtain ⟨hname, hrest⟩ := append_cons_inj hx.name hy.name h
  have hname' : x.name = y.name := String.toList_injective hname
  obtain ⟨hvalue, hst⟩ := List.append_inj hrest
    (by rw [hx.length, hy.length, hwidth hname'])
  rw [hwidth hname'] at hvalue
  refine ⟨?_, hst⟩
  cases x
  cases y
  rw [mk.injEq]
  exact ⟨hname', hwidth hname', leftpad_toDigits_injective (by norm_num) le_rfl rfl hvalue⟩

/-- Entries one after the other, up to a terminator: the text determines which of them are there, and
their values. -/
theorem flatMap_text_inj {e : Char} (he : e ≠ ' ') {s t : List Char} : ∀ l m : List Entry,
    (∀ x ∈ l, x.Fits) → (∀ y ∈ m, y.Fits) → SameWidths l m →
    l.flatMap text ++ e :: s = m.flatMap text ++ e :: t → l = m ∧ s = t
  | [], [], _, _, _, h => ⟨rfl, (List.cons.inj h).2⟩
  | [], y :: m, _, _, _, h => absurd (List.cons.inj h).1 he
  | x :: l, [], _, _, _, h => absurd (List.cons.inj h).1.symm he
  | x :: l, y :: m, hl, hm, hw, h => by
    rw [List.flatMap_cons, List.flatMap_cons, List.append_assoc, List.append_assoc] at h
    obtain ⟨hxy, hrest⟩ := text_append_inj (hl x (by simp)) (hm y (by simp))
      (hw x (by simp) y (by simp)) h
    obtain ⟨hlm, hst⟩ := flatMap_text_inj he l m (fun z hz => hl z (by simp [hz]))
      (fun z hz => hm z (by simp [hz])) (fun z hz w hw' => hw z (by simp [hz]) w (by simp [hw'])) hrest
    exact ⟨by rw [hxy, hlm], hst⟩

end Entry

/-- Selecting with distinct keys: the list of what was selected tells of every item whether it was, and
what it was selected as. -/
theorem filterMap_inj {α β κ : Type} {key : α → κ} {name : β → κ} {f g : α → Option β} {l : List α}
    (hnodup : (l.map key).Nodup) (hf : ∀ a, ∀ b ∈ f a, name b = key a)
    (hg : ∀ a, ∀ b ∈ g a, name b = key a) (h : l.filterMap f = l.filterMap g) :
    ∀ a ∈ l, f a = g a := by
  have hnot : ∀ {k : α → Option β} {l : List α} {a : α}, (∀ a, ∀ b ∈ k a, name b = key a) →
      key a ∉ l.map key → ∀ b ∈ l.filterMap k, name b ≠ key a := by
    intro k l a hk ha b hb heq
    obtain ⟨c, hc, hb⟩ := List.mem_filterMap.mp hb
    exact ha (List.mem_map.mpr ⟨c, hc, (hk c b hb).symm.trans heq⟩)
  induction l with
  | nil => simp
  | cons a l ih =>
    rw [List.map_cons, List.nodup_cons] at hnodup
    cases hfa : f a with
    | none =>
      cases hga : g a with
      | none =>
        rw [List.filterMap_cons_none hfa, List.filterMap_cons_none hga] at h
        intro c hc
        rcases List.mem_cons.mp hc with rfl | hc
        · rw [hfa, hga]
        · exact ih hnodup.2 h c hc
      | some b =>
        rw [List.filterMap_cons_none hfa, List.filterMap_cons_some hga] at h
        exact absurd (hg a b hga) (hnot hf hnodup.1 b (by rw [h]; simp))
    | some b =>
      cases hga : g a with
      | none =>
        rw [List.filterMap_cons_some hfa, List.filterMap_cons_none hga] at h
        exact absurd (hf a b hfa) (hnot hg hnodup.1 b (by rw [← h]; simp))
      | some b' =>
        rw [List.filterMap_cons_some hfa, List.filterMap_cons_some hga] at h
        obtain ⟨rfl, hrest⟩ := List.cons.inj h
        intro c hc
        rcases List.mem_cons.mp hc with rfl | hc
        · rw [hfa, hga]
        · exact ih hnodup.2 hrest c hc

/-! ## Tables -/

/-- A row of a table: the name of a number that values of type `α` have, and the width of its field. -/
structure Row (α : Type) where
  name : String
  width : ℕ
  get : α → ℕ

def Row.entry {α : Type} (r : Row α) (a : α) : Entry := ⟨r.name, r.width, r.get a⟩

/-- The entries of all rows. -/
def listing {α : Type} (rows : List (Row α)) (a : α) : List Entry := rows.map fun r => r.entry a

/-- The entries of the rows that are selected. -/
def select {α : Type} (rows : List (Row α)) (c : Row α → Bool) (a : α) : List Entry :=
  rows.filterMap fun r => if c r then some (r.entry a) else none

/-- The names of the rows are different, and have no `=`; the numbers fit into their fields. -/
structure Proper {α : Type} (rows : List (Row α)) : Prop where
  nodup : (rows.map Row.name).Nodup
  name : ∀ r ∈ rows, '=' ∉ r.name.toList
  width_pos : ∀ r ∈ rows, 0 < r.width
  get_lt : ∀ a, ∀ r ∈ rows, r.get a < 16 ^ r.width

namespace Proper

variable {α : Type} {rows : List (Row α)} {c d : Row α → Bool} {a b : α} {e : Char} {s t : List Char}

theorem mem_select {x : Entry} (h : x ∈ select rows c a) : ∃ r ∈ rows, r.entry a = x := by
  obtain ⟨r, hr, hx⟩ := List.mem_filterMap.mp h
  split_ifs at hx
  exact ⟨r, hr, Option.some.inj hx⟩

theorem fits (h : Proper rows) : ∀ x ∈ select rows c a, x.Fits := by
  intro x hx
  obtain ⟨r, hr, rfl⟩ := mem_select hx
  exact ⟨h.width_pos r hr, h.get_lt a r hr, h.name r hr⟩

theorem sameWidths (h : Proper rows) : Entry.SameWidths (select rows c a) (select rows d b) := by
  intro x hx y hy hname
  obtain ⟨r, hr, rfl⟩ := mem_select hx
  obtain ⟨q, hq, rfl⟩ := mem_select hy
  have hrq : r = q := List.inj_on_of_nodup_map h.nodup hr hq hname
  rw [hrq]
  rfl

/-- The rows that are selected, up to a terminator: the text determines which ones they are, and their
numbers. -/
theorem select_inj (h : Proper rows) (he : e ≠ ' ')
    (heq : (select rows c a).flatMap Entry.text ++ e :: s =
      (select rows d b).flatMap Entry.text ++ e :: t) :
    (∀ r ∈ rows, c r = d r ∧ (c r = true → r.get a = r.get b)) ∧ s = t := by
  obtain ⟨hselect, hst⟩ := Entry.flatMap_text_inj he _ _ h.fits h.fits h.sameWidths heq
  refine ⟨fun r hr => ?_, hst⟩
  have hname : ∀ (k : Row α → Bool) (a : α) (r : Row α),
      ∀ x ∈ (if k r then some (r.entry a) else none), x.name = r.name := by
    intro k a r x hx
    split_ifs at hx
    · cases hx
      rfl
    · cases hx
  have hrow := filterMap_inj h.nodup (hname c a) (hname d b) hselect r hr
  cases hc : c r <;> cases hd : d r <;> simp_all [Row.entry]

/-- All rows, up to a terminator. -/
theorem listing_inj (h : Proper rows) (he : e ≠ ' ')
    (heq : (listing rows a).flatMap Entry.text ++ e :: s =
      (listing rows b).flatMap Entry.text ++ e :: t) :
    (∀ r ∈ rows, r.get a = r.get b) ∧ s = t := by
  have hall (a : α) : listing rows a = select rows (fun _ => true) a := by
    simp [listing, select]
  rw [hall, hall] at heq
  obtain ⟨hrows, hst⟩ := h.select_inj he heq
  exact ⟨fun r hr => (hrows r hr).2 rfl, hst⟩

end Proper

end RvnSyncPoint.Printing
