import Mathlib.Tactic

/-!
# Pools of readers

Any number of readers of one source, of which calls in any order make one read on, take over where another
one is, or go to a checkpoint that was taken before. `Reader` is what the calls do to a reader. Where the
readers of one kind simulate those of another, so do their pools (`Reader.Simulates.run`).

A `Cursor` is a reader of a list that knows of no file: it is before an item, at the end, or nowhere, after
it took over from a reader at the end. Of a pool of cursors, the counters and the checkpoints tell the items
(`Consistent.run`), as long as no checkpoint is taken of a cursor that only took over where another one is.
-/

namespace RvnSyncPoint.Readers

/-- A kind of readers: their states, the items that they read, and the marks of their checkpoints. -/
structure Reader (ρ μ α : Type) where
  next : ρ → ρ
  current : ρ → α
  position : ρ → ℕ
  mark : ρ → μ
  advanceTo : μ → ℕ → ρ → ρ
  syncWith : ρ → ρ → ρ

/-- A checkpoint, and the item at which it was taken. -/
structure Saved (μ α : Type) where
  mark : μ
  position : ℕ
  item : α

structure Pool (ι ρ μ α : Type) where
  readers : ι → ρ
  saved : List (Saved μ α) := []
  /-- Whether the last call that moved the reader was `syncWith`. -/
  synced : ι → Bool := fun _ => false

/-- The calls on the readers of a pool. -/
inductive Call (ι : Type) where
  | next (i : ι)
  | syncWith (i j : ι)
  | save (i : ι)
  | restore (i : ι) (n : ℕ)

section

variable {ι ρ μ α : Type} [DecidableEq ι]

/-- The reader `i` is moved to `f`. -/
def Pool.move (p : Pool ι ρ μ α) (i : ι) (f : ρ) (synced : Bool) : Pool ι ρ μ α :=
  { p with
    readers := Function.update p.readers i f, synced := Function.update p.synced i synced }

/-- One call on a pool. A checkpoint that was not taken is not restored. -/
def Reader.step (R : Reader ρ μ α) (p : Pool ι ρ μ α) : Call ι → Pool ι ρ μ α
  | .next i => p.move i (R.next (p.readers i)) false
  | .syncWith i j => p.move i (R.syncWith (p.readers i) (p.readers j)) true
  | .save i =>
    let f := p.readers i
    { p with saved := p.saved ++ [⟨R.mark f, R.position f, R.current f⟩] }
  | .restore i n => match p.saved[n]? with
    | some c => p.move i (R.advanceTo c.mark c.position (p.readers i)) false
    | none => p

/-- The calls of a list, one after the other. -/
def Reader.run (R : Reader ρ μ α) : List (Call ι) → Pool ι ρ μ α → Pool ι ρ μ α
  | [], p => p
  | c :: cs, p => R.run cs (R.step p c)

/-- A checkpoint is taken of a reader whose item is valid, and which read that item itself. -/
def Reader.Allows (R : Reader ρ μ α) (valid : α → Bool) (p : Pool ι ρ μ α) : Call ι → Prop
  | .save i => valid (R.current (p.readers i)) = true ∧ p.synced i = false
  | _ => True

/-- All checkpoints are. -/
def Reader.AllowsAll (R : Reader ρ μ α) (valid : α → Bool) : List (Call ι) → Pool ι ρ μ α → Prop
  | [], _ => True
  | c :: cs, p => R.Allows valid p c ∧ R.AllowsAll valid cs (R.step p c)

end

/-! ## Simulation -/

section

variable {ι ρ σ μ ν α : Type} {R : Reader ρ μ α} {S : Reader σ ν α} {Rel : ρ → σ → Prop}
  {Mark : μ → ν → Prop}

/-- Related readers show the same, and stay related. -/
structure Reader.Simulates (R : Reader ρ μ α) (S : Reader σ ν α) (Rel : ρ → σ → Prop)
    (Mark : μ → ν → Prop) : Prop where
  current {f s} (h : Rel f s) : R.current f = S.current s
  position {f s} (h : Rel f s) : R.position f = S.position s
  mark {f s} (h : Rel f s) : Mark (R.mark f) (S.mark s)
  next {f s} (h : Rel f s) : Rel (R.next f) (S.next s)
  advanceTo {f s m n} (q : ℕ) (h : Rel f s) (hm : Mark m n) :
    Rel (R.advanceTo m q f) (S.advanceTo n q s)
  syncWith {f s g t} (h : Rel f s) (h' : Rel g t) : Rel (R.syncWith f g) (S.syncWith s t)

/-- Related checkpoints. -/
structure Saved.Related (Mark : μ → ν → Prop) (c : Saved μ α) (d : Saved ν α) : Prop where
  mark : Mark c.mark d.mark
  position : c.position = d.position
  item : c.item = d.item

/-- Pools of related readers, with related checkpoints. -/
structure Pool.Related (Rel : ρ → σ → Prop) (Mark : μ → ν → Prop) (p : Pool ι ρ μ α)
    (q : Pool ι σ ν α) : Prop where
  readers : ∀ i, Rel (p.readers i) (q.readers i)
  saved : List.Forall₂ (Saved.Related Mark) p.saved q.saved
  synced : p.synced = q.synced

variable [DecidableEq ι] {p : Pool ι ρ μ α} {q : Pool ι σ ν α}

theorem Pool.Related.move (h : Pool.Related Rel Mark p q) (i : ι) {f : ρ} {s : σ} (hfs : Rel f s)
    (synced : Bool) : Pool.Related Rel Mark (p.move i f synced) (q.move i s synced) where
  readers j := by
    simp only [Pool.move, Function.update_apply]
    split_ifs
    · exact hfs
    · exact h.readers j
  saved := h.saved
  synced := by rw [Pool.move, Pool.move, h.synced]

omit [DecidableEq ι] in
/-- The checkpoints of a number. -/
theorem Pool.Related.getElem? {l : List (Saved μ α)} {m : List (Saved ν α)}
    (h : List.Forall₂ (Saved.Related Mark) l m) (n : ℕ) :
    Option.Rel (Saved.Related Mark) l[n]? m[n]? := by
  induction h generalizing n with
  | nil => exact .none
  | cons hcd _ ih =>
    cases n with
    | zero => exact .some hcd
    | succ n => exact ih n

/-- One call. -/
theorem Reader.Simulates.step (hsim : R.Simulates S Rel Mark) (h : Pool.Related Rel Mark p q)
    (c : Call ι) : Pool.Related Rel Mark (R.step p c) (S.step q c) := by
  cases c with
  | next i => exact h.move i (hsim.next (h.readers i)) false
  | syncWith i j => exact h.move i (hsim.syncWith (h.readers i) (h.readers j)) true
  | save i =>
    have hi := h.readers i
    exact ⟨h.readers, List.rel_append h.saved
      (.cons ⟨hsim.mark hi, hsim.position hi, hsim.current hi⟩ .nil), h.synced⟩
  | restore i n =>
    have hn := Pool.Related.getElem? h.saved n
    unfold Reader.step
    dsimp only
    cases hp : p.saved[n]? with
    | none =>
      rw [hp] at hn
      cases hq : q.saved[n]? with
      | none => exact h
      | some d => rw [hq] at hn; cases hn
    | some c =>
      rw [hp] at hn
      cases hq : q.saved[n]? with
      | none => rw [hq] at hn; cases hn
      | some d =>
        rw [hq] at hn
        cases hn with
        | some hcd =>
          have hadvance := hsim.advanceTo c.position (h.readers i) hcd.mark
          dsimp only
          rw [← hcd.position]
          exact h.move i hadvance false

/-- Every sequence of calls. -/
theorem Reader.Simulates.run (hsim : R.Simulates S Rel Mark) (cs : List (Call ι)) :
    ∀ {p q}, Pool.Related Rel Mark p q → Pool.Related Rel Mark (R.run cs p) (S.run cs q) := by
  induction cs with
  | nil => exact fun h => h
  | cons c cs ih => exact fun h => ih (hsim.step h c)

omit [DecidableEq ι] in
/-- What is allowed of one pool is allowed of the other. -/
theorem Reader.Simulates.allows (hsim : R.Simulates S Rel Mark) {valid : α → Bool}
    (h : Pool.Related Rel Mark p q) {c : Call ι} (hc : R.Allows valid p c) : S.Allows valid q c := by
  cases c with
  | save i =>
    obtain ⟨hvalid, hsynced⟩ := hc
    rw [hsim.current (h.readers i)] at hvalid
    exact ⟨hvalid, h.synced ▸ hsynced⟩
  | _ => trivial

theorem Reader.Simulates.allowsAll (hsim : R.Simulates S Rel Mark) {valid : α → Bool}
    (cs : List (Call ι)) : ∀ {p q}, Pool.Related Rel Mark p q → R.AllowsAll valid cs p →
      S.AllowsAll valid cs q := by
  induction cs with
  | nil => exact fun _ _ => trivial
  | cons c cs ih => exact fun h hcs => ⟨hsim.allows h hcs.1, ih (hsim.step h c) hcs.2⟩

end

/-! ## Cursors -/

/-- What a cursor reads: a list of valid items, and what it makes of its item where there is none to read. -/
structure Source (α : Type) where
  items : List α
  valid : α → Bool
  /-- The item that is read nowhere. -/
  zero : α
  /-- What is left of an item at the end. -/
  blank : α → α
  valid_items : ∀ a ∈ items, valid a = true
  zero_invalid : valid zero = false
  blank_invalid : ∀ a, valid (blank a) = false
  length_lt : items.length + 1 < 2 ^ 64

inductive Place where
  | before (k : ℕ)
  | ended
  /-- Where there is nothing to read, and no end to be met. -/
  | nowhere
deriving DecidableEq

/-- The number of the item that a place is before. -/
def Place.mark : Place → Option ℕ
  | .before k => some k
  | _ => none

/-- The place of a mark. -/
def Place.ofMark : Option ℕ → Place
  | some k => .before k
  | none => .nowhere

structure Cursor (α : Type) where
  place : Place
  current : α
  /-- The place before the last read. -/
  mark : Option ℕ
  /-- The counter of the items read. -/
  position : ℕ

namespace Cursor

variable {α : Type}

/-- Before the first item. -/
def start (a : α) : Cursor α := ⟨.before 0, a, some 0, 0⟩

/-- Reads on. The attempt to read the item after the last one is counted. -/
def next (S : Source α) (s : Cursor α) : Cursor α :=
  let position := (s.position + 1) % 2 ^ 64
  match s.place with
  | .before k =>
    if h : k < S.items.length then ⟨.before (k + 1), S.items[k], some k, position⟩
    else ⟨.ended, S.zero, some k, position⟩
  | .ended => { s with current := S.blank s.current, mark := none }
  | .nowhere => ⟨.nowhere, S.zero, none, position⟩

/-- Goes to a checkpoint. -/
def advanceTo (S : Source α) (mark : Option ℕ) (position : ℕ) (s : Cursor α) : Cursor α :=
  let s := { s with place := .ofMark mark }
  if position = 0 then { s with position := 0 } else next S { s with position := position - 1 }

/-- Takes over where another cursor is, but for its mark; and if that is the end, goes nowhere. -/
def syncWith (s other : Cursor α) : Cursor α :=
  { s with place := .ofMark other.place.mark, position := other.position, current := other.current }

/-- The cursors of a list. -/
def reader (S : Source α) : Reader (Cursor α) (Option ℕ) α where
  next := next S
  current := current
  position := position
  mark := mark
  advanceTo := advanceTo S
  syncWith := syncWith

/-- A valid item is the one that the counter tells, and the cursor is before the one that the counter
tells next; where there is nothing to read, the item is not valid. -/
structure Sound (S : Source α) (s : Cursor α) : Prop where
  item : S.valid s.current = true → 1 ≤ s.position ∧ S.items[s.position - 1]? = some s.current
  before : ∀ k, s.place = .before k → s.position = k ∧ k ≤ S.items.length
  nowhere : s.place.mark = none → S.valid s.current = false

/-- The mark is that of the item. -/
def Marked (S : Source α) (s : Cursor α) : Prop :=
  S.valid s.current = true → s.mark = some (s.position - 1)

/-- A checkpoint of an item. -/
def IsCheckpoint (S : Source α) (c : Saved (Option ℕ) α) : Prop :=
  ∃ k, c.mark = some k ∧ c.position = k + 1 ∧ S.items[k]? = some c.item

variable {S : Source α} {s t : Cursor α}

theorem sound_start {a : α} (h : S.valid a = false) : Sound S (start a) where
  item hv := absurd hv (by simp [start, h])
  before k hk := by
    cases hk
    exact ⟨rfl, Nat.zero_le _⟩
  nowhere hm := nomatch hm

/-- Reading on. -/
theorem Sound.next (h : Sound S s) : Sound S (s.next S) ∧ Marked S (s.next S) := by
  have hinvalid : ∀ {place mark position a}, S.valid a = false → (∀ k, place ≠ .before k) →
      Sound S ⟨place, a, mark, position⟩ ∧ Marked S ⟨place, a, mark, position⟩ := by
    intro place mark position a ha hplace
    have hnot : ¬ S.valid a = true := by rw [ha]; exact Bool.false_ne_true
    exact ⟨⟨fun hv => absurd hv hnot, fun k hk => absurd hk (hplace k), fun _ => ha⟩,
      fun hv => absurd hv hnot⟩
  unfold Cursor.next
  cases hplace : s.place with
  | before k =>
    obtain ⟨hpos, hk⟩ := h.before k hplace
    have hlt := S.length_lt
    have hcount : (s.position + 1) % 2 ^ 64 = k + 1 := by rw [hpos]; exact Nat.mod_eq_of_lt (by omega)
    dsimp only
    rw [hcount]
    split_ifs with hitem
    · refine ⟨⟨fun _ => ⟨Nat.le_add_left 1 k, List.getElem?_eq_getElem hitem⟩, ?_, nofun⟩, fun _ => rfl⟩
      rintro j ⟨⟩
      exact ⟨rfl, hitem⟩
    · exact hinvalid S.zero_invalid nofun
  | ended => exact hinvalid (S.blank_invalid _) nofun
  | nowhere => exact hinvalid S.zero_invalid nofun

/-- Going to a checkpoint of an item ends at that item, from wherever the cursor is. -/
theorem advanceTo_checkpoint (s : Cursor α) {c : Saved (Option ℕ) α} (hc : IsCheckpoint S c) :
    s.advanceTo S c.mark c.position = ⟨.before c.position, c.item, c.mark, c.position⟩ := by
  obtain ⟨k, hmark, hpos, hitem⟩ := hc
  obtain ⟨hk, hitem⟩ := List.getElem?_eq_some_iff.mp hitem
  have hlt := S.length_lt
  have hcount : (k + 1) % 2 ^ 64 = k + 1 := Nat.mod_eq_of_lt (by omega)
  unfold advanceTo
  rw [hmark, hpos, if_neg (Nat.succ_ne_zero k), Nat.add_sub_cancel]
  unfold Cursor.next
  simp only [Place.ofMark, dif_pos hk, hitem, hcount]

theorem sound_checkpoint {c : Saved (Option ℕ) α} (hc : IsCheckpoint S c) :
    Sound S ⟨.before c.position, c.item, c.mark, c.position⟩ ∧
      Marked S ⟨.before c.position, c.item, c.mark, c.position⟩ := by
  obtain ⟨k, hmark, hpos, hitem⟩ := hc
  rw [hmark, hpos]
  refine ⟨⟨fun _ => ⟨Nat.le_add_left 1 k, hitem⟩, ?_, nofun⟩, fun _ => rfl⟩
  rintro j ⟨⟩
  exact ⟨rfl, (List.getElem?_eq_some_iff.mp hitem).1⟩

theorem Sound.syncWith (h : Sound S t) : Sound S (s.syncWith t) where
  item := h.item
  before k hk := by
    cases hplace : t.place with
    | before j =>
      simp only [Cursor.syncWith, hplace, Place.mark, Place.ofMark, Place.before.injEq] at hk
      exact hk ▸ h.before j hplace
    | ended => simp [Cursor.syncWith, hplace, Place.mark, Place.ofMark] at hk
    | nowhere => simp [Cursor.syncWith, hplace, Place.mark, Place.ofMark] at hk
  nowhere hm := by
    refine h.nowhere ?_
    cases hplace : t.place with
    | before j => simp [Cursor.syncWith, hplace, Place.mark, Place.ofMark] at hm
    | ended => rfl
    | nowhere => rfl

end Cursor

/-! ## Pools of cursors -/

section

variable {ι α : Type} [DecidableEq ι] {S : Source α} {p : Pool ι (Cursor α) (Option ℕ) α}

/-- Each cursor is sound, and marked if it read its item itself; and the checkpoints are those of items. -/
structure Consistent (S : Source α) (p : Pool ι (Cursor α) (Option ℕ) α) : Prop where
  sound : ∀ i, (p.readers i).Sound S
  marked : ∀ i, p.synced i = false → (p.readers i).Marked S
  saved : ∀ c ∈ p.saved, Cursor.IsCheckpoint S c

theorem Consistent.move (h : Consistent S p) (i : ι) {s : Cursor α} {synced : Bool} (hs : s.Sound S)
    (hmarked : synced = false → s.Marked S) : Consistent S (p.move i s synced) where
  sound j := by
    simp only [Pool.move, Function.update_apply]
    split_ifs
    · exact hs
    · exact h.sound j
  marked j := by
    simp only [Pool.move, Function.update_apply]
    split_ifs
    · exact hmarked
    · exact h.marked j
  saved := h.saved

/-- One call that is allowed. -/
theorem Consistent.step (h : Consistent S p) {c : Call ι}
    (hc : (Cursor.reader S).Allows S.valid p c) : Consistent S ((Cursor.reader S).step p c) := by
  cases c with
  | next i =>
    obtain ⟨hsound, hmarked⟩ := (h.sound i).next
    exact h.move i hsound fun _ => hmarked
  | syncWith i j => exact h.move i (h.sound j).syncWith nofun
  | save i =>
    obtain ⟨hvalid, hsynced⟩ := hc
    obtain ⟨hpos, hitem⟩ := (h.sound i).item hvalid
    refine ⟨h.sound, h.marked, fun c hc => ?_⟩
    rcases List.mem_append.mp hc with hc | hc
    · exact h.saved c hc
    · rw [List.mem_singleton] at hc
      subst hc
      exact ⟨(p.readers i).position - 1, h.marked i hsynced hvalid, (Nat.sub_add_cancel hpos).symm, hitem⟩
  | restore i n =>
    unfold Reader.step
    dsimp only
    cases hn : p.saved[n]? with
    | none => exact h
    | some c =>
      have hcheck := h.saved c (List.mem_of_getElem? hn)
      obtain ⟨hsound, hmarked⟩ := Cursor.sound_checkpoint hcheck
      rw [← Cursor.advanceTo_checkpoint (p.readers i) hcheck] at hsound hmarked
      exact h.move i hsound fun _ => hmarked

/-- Every sequence of calls that is. -/
theorem Consistent.run (cs : List (Call ι)) : ∀ {p : Pool ι (Cursor α) (Option ℕ) α}, Consistent S p →
    (Cursor.reader S).AllowsAll S.valid cs p → Consistent S ((Cursor.reader S).run cs p) := by
  induction cs with
  | nil => exact fun h _ => h
  | cons c cs ih => exact fun h hcs => ih (h.step hcs.1) hcs.2

end

end RvnSyncPoint.Readers
