import Mathlib.Data.List.Sort
import Mathlib.Tactic

/-!
# Multimaps

A `std::multimap` holds entries in the order of their keys, and among the entries of one key in the
order in which they were inserted. So inserting the elements of a list under their keys one by one,
and then going through the entries, sorts the list, and the sort is stable (`stableSort_values`). A
stable sort of a list that is in order already changes nothing (`values_ofKeys_of_sorted`), and a stable
sort is determined by the elements of each key (`stableSort_eq_iff`).
-/

namespace RvnSyncPoint

section Order

variable {α κ : Type} [LE κ] [DecidableEq κ]

/-- The list `m` is `l` in the order of the keys, with the elements of each key in their order
in `l`. -/
structure StableSort (key : α → κ) (l m : List α) : Prop where
  sorted : m.Pairwise fun a b => key a ≤ key b
  perm : m.Perm l
  stable : ∀ k, m.filter (fun a => key a = k) = l.filter fun a => key a = k

end Order

/-- A multimap. -/
structure Multimap (κ α : Type) [LE κ] where
  /-- The entries, in the order of the iteration. -/
  entries : List (κ × α)
  sorted : entries.Pairwise fun a b => a.1 ≤ b.1

namespace Multimap

variable {κ α : Type} [LE κ] [LT κ] [DecidableLT κ] [Std.IsLinearOrder κ] [Std.LawfulOrderLT κ]

/-- Inserting in front of the first entry with a greater key keeps the order. -/
theorem sorted_orderedInsert (e : κ × α) (l : List (κ × α))
    (h : l.Pairwise fun a b => a.1 ≤ b.1) :
    (l.orderedInsert (fun a b => a.1 < b.1) e).Pairwise fun a b => a.1 ≤ b.1 := by
  induction l with
  | nil => exact List.pairwise_singleton _ _
  | cons b l ih =>
    obtain ⟨hb, hl⟩ := List.pairwise_cons.mp h
    rw [List.orderedInsert_cons]
    split_ifs with hlt
    · have hle : e.1 ≤ b.1 := Std.le_of_lt hlt
      refine List.pairwise_cons.mpr ⟨?_, h⟩
      intro a ha
      rcases List.mem_cons.mp ha with rfl | ha
      · exact hle
      · exact Std.le_trans hle (hb a ha)
    · refine List.pairwise_cons.mpr ⟨?_, ih hl⟩
      intro a ha
      rcases List.mem_cons.mp ((List.perm_orderedInsert _ e l).mem_iff.mp ha) with rfl | ha
      · exact Std.not_lt.mp hlt
      · exact hb a ha

/-- The constructor. -/
def empty : Multimap κ α := ⟨[], .nil⟩

/-- `insert()`, which puts the entry after those of the same key. -/
def insert (e : κ × α) (m : Multimap κ α) : Multimap κ α :=
  ⟨m.entries.orderedInsert (fun a b => a.1 < b.1) e, sorted_orderedInsert e m.entries m.sorted⟩

theorem entries_insert (e : κ × α) (m : Multimap κ α) :
    (m.insert e).entries = m.entries.orderedInsert (fun a b => a.1 < b.1) e := rfl

/-- The values, in the order of the iteration. -/
def values (m : Multimap κ α) : List α := m.entries.map Prod.snd

/-- Inserts the elements of a list, each under its key. -/
def insertAll (key : α → κ) (m : Multimap κ α) (l : List α) : Multimap κ α :=
  l.foldl (fun m a => m.insert (key a, a)) m

/-- The multimap of the elements of a list under their keys. -/
def ofKeys (key : α → κ) (l : List α) : Multimap κ α := insertAll key empty l

/-- Inserting one entry more. -/
theorem ofKeys_concat (key : α → κ) (l : List α) (a : α) :
    ofKeys key (l ++ [a]) = (ofKeys key l).insert (key a, a) := by
  rw [ofKeys, insertAll, List.foldl_append]
  rfl

variable {key : α → κ} {m : Multimap κ α} {l : List α}

/-- What a multimap holds, one entry more. -/
theorem perm_values_insert (e : κ × α) : (m.insert e).values.Perm (e.2 :: m.values) :=
  (List.perm_orderedInsert _ e m.entries).map Prod.snd

/-- Every element is there. -/
theorem perm_values_insertAll (m : Multimap κ α) (l : List α) :
    (insertAll key m l).values.Perm (m.values ++ l) := by
  induction l generalizing m with
  | nil => simp [insertAll]
  | cons a l ih =>
    have hrest := ih (m.insert (key a, a))
    have hinsert : ((m.insert (key a, a)).values ++ l).Perm (a :: m.values ++ l) :=
      (perm_values_insert _).append_right l
    exact (hrest.trans hinsert).trans List.perm_middle.symm

/-- The entries are filed under their keys. -/
def Filed (key : α → κ) (m : Multimap κ α) : Prop := ∀ e ∈ m.entries, e.1 = key e.2

theorem Filed.insert (h : Filed key m) (a : α) : Filed key (m.insert (key a, a)) := by
  intro e he
  rcases List.mem_cons.mp ((List.perm_orderedInsert _ _ m.entries).mem_iff.mp he) with rfl | he
  · rfl
  · exact h e he

theorem Filed.insertAll (h : Filed key m) (l : List α) : Filed key (m.insertAll key l) := by
  induction l generalizing m with
  | nil => exact h
  | cons a l ih => exact ih (h.insert a)

theorem filed_ofKeys (l : List α) : Filed key (ofKeys key l) :=
  Filed.insertAll (m := empty) (fun _ he => (List.not_mem_nil he).elim) l

omit [LT κ] [DecidableLT κ] [Std.IsLinearOrder κ] [Std.LawfulOrderLT κ] in
/-- The values of filed entries are in the order of their keys. -/
theorem Filed.sorted_values (h : Filed key m) :
    m.values.Pairwise fun a b => key a ≤ key b := by
  refine List.pairwise_map.mpr (m.sorted.imp_of_mem ?_)
  intro a b ha hb hle
  rwa [← h a ha, ← h b hb]

variable [DecidableEq κ]

/-- Among the entries of one key, the new one is the last. -/
theorem filter_orderedInsert (k : κ) (e : κ × α) (l : List (κ × α))
    (h : l.Pairwise fun a b => a.1 ≤ b.1) :
    (l.orderedInsert (fun a b => a.1 < b.1) e).filter (fun a => a.1 = k) =
      l.filter (fun a => a.1 = k) ++ [e].filter fun a => a.1 = k := by
  induction l with
  | nil => rfl
  | cons b l ih =>
    obtain ⟨hb, hl⟩ := List.pairwise_cons.mp h
    rw [List.orderedInsert_cons]
    split_ifs with hlt
    · by_cases hk : e.1 = k
      · -- Every entry from here on has a greater key.
        have hnone : (b :: l).filter (fun a => a.1 = k) = [] := by
          refine List.filter_eq_nil_iff.mpr fun a ha hak => ?_
          have hle : b.1 ≤ a.1 := by
            rcases List.mem_cons.mp ha with rfl | ha
            · exact Std.le_refl _
            · exact hb a ha
          rw [of_decide_eq_true hak, ← hk] at hle
          exact Std.not_lt.mpr hle hlt
        rw [List.filter_cons_of_pos (by simpa using hk), hnone]
        simp [hk]
      · simp [List.filter_cons, hk]
    · -- The entry is inserted further on.
      rw [List.filter_cons, List.filter_cons, ih hl]
      split_ifs <;> simp

/-- The values of one key, after an insertion. -/
theorem Filed.filter_insert (h : Filed key m) (k : κ) (a : α) :
    (m.insert (key a, a)).values.filter (fun b => key b = k) =
      m.values.filter (fun b => key b = k) ++ [a].filter fun b => key b = k := by
  have hfile (n : Multimap κ α) (hn : Filed key n) :
      n.values.filter (fun b => key b = k) = (n.entries.filter fun e => e.1 = k).map Prod.snd := by
    rw [values, List.filter_map]
    refine congrArg _ (List.filter_congr fun e he => ?_)
    rw [Function.comp_apply, hn e he]
  rw [hfile _ (h.insert a), hfile _ h, entries_insert, filter_orderedInsert k _ _ m.sorted,
    List.map_append]
  by_cases hk : key a = k <;> simp [hk]

theorem Filed.filter_insertAll (h : Filed key m) (k : κ) (l : List α) :
    (m.insertAll key l).values.filter (fun b => key b = k) =
      m.values.filter (fun b => key b = k) ++ l.filter fun b => key b = k := by
  induction l generalizing m with
  | nil => simp [Multimap.insertAll]
  | cons a l ih =>
    calc _ = (m.insert (key a, a)).values.filter (fun b => key b = k) ++
          l.filter (fun b => key b = k) := ih (h.insert a)
      _ = _ := by
        rw [h.filter_insert k a, List.append_assoc, ← List.filter_append, List.singleton_append]

/-- Going through the multimap of a list is going through the list, stably sorted. -/
theorem stableSort_values (key : α → κ) (l : List α) : StableSort key l (ofKeys key l).values where
  sorted := (filed_ofKeys l).sorted_values
  perm := perm_values_insertAll empty l
  stable k := Filed.filter_insertAll (m := empty) (fun _ he => (List.not_mem_nil he).elim) k l

omit [LE κ] [LT κ] [DecidableLT κ] [Std.IsLinearOrder κ] [Std.LawfulOrderLT κ] in
/-- Lists in which each key has the same elements have the same elements. -/
theorem mem_iff_of_filter_eq {m n : List α}
    (h : ∀ k, m.filter (fun a => key a = k) = n.filter fun a => key a = k) (a : α) : a ∈ m ↔ a ∈ n := by
  have hfilter : a ∈ m.filter (fun b => key b = key a) ↔ a ∈ n.filter fun b => key b = key a := by
    rw [h]
  simpa using hfilter

omit [LT κ] [DecidableLT κ] [Std.LawfulOrderLT κ] in
/-- A list in the order of its keys is determined by the elements of each key, in their order. -/
theorem eq_of_filter_eq {m n : List α} (hm : m.Pairwise fun a b => key a ≤ key b)
    (hn : n.Pairwise fun a b => key a ≤ key b)
    (h : ∀ k, m.filter (fun a => key a = k) = n.filter fun a => key a = k) : m = n := by
  induction m generalizing n with
  | nil =>
    refine (List.eq_nil_iff_forall_not_mem.mpr fun a ha => ?_).symm
    exact List.not_mem_nil ((mem_iff_of_filter_eq h a).mpr ha)
  | cons a m ih =>
    cases n with
    | nil => exact absurd ((mem_iff_of_filter_eq h a).mp List.mem_cons_self) List.not_mem_nil
    | cons b n =>
      obtain ⟨ha, hm'⟩ := List.pairwise_cons.mp hm
      obtain ⟨hb, hn'⟩ := List.pairwise_cons.mp hn
      -- Each of the first two elements is in the other list, so neither key is below the other.
      have hkey : key a = key b := by
        refine Std.le_antisymm ?_ ?_
        · rcases List.mem_cons.mp ((mem_iff_of_filter_eq h b).mpr List.mem_cons_self) with rfl | hmb
          · exact Std.le_refl _
          · exact ha b hmb
        · rcases List.mem_cons.mp ((mem_iff_of_filter_eq h a).mp List.mem_cons_self) with rfl | hna
          · exact Std.le_refl _
          · exact hb a hna
      have hfirst := h (key a)
      rw [List.filter_cons_of_pos (by simp), List.filter_cons_of_pos (by simp [hkey])] at hfirst
      obtain ⟨rfl, htail⟩ := List.cons.inj hfirst
      refine congrArg (a :: ·) (ih hm' hn' fun k => ?_)
      by_cases hk : key a = k
      · rw [← hk]
        exact htail
      · have hk' := h k
        rwa [List.filter_cons_of_neg (by simpa using hk), List.filter_cons_of_neg (by simpa using hk)] at hk'

omit [LT κ] [DecidableLT κ] [Std.LawfulOrderLT κ] in
/-- Two lists have the same stable sort exactly when in both of them each key has the same elements in the
same order. -/
theorem stableSort_eq_iff {l' m n : List α} (h : StableSort key l m) (h' : StableSort key l' n) :
    m = n ↔ ∀ k, l.filter (fun a => key a = k) = l'.filter fun a => key a = k := by
  constructor
  · rintro rfl k
    rw [← h.stable, h'.stable]
  · intro hsame
    refine eq_of_filter_eq h.sorted h'.sorted fun k => ?_
    rw [h.stable, h'.stable, hsame]

omit [DecidableEq κ] in
/-- An entry whose key is not below any other is the last. -/
theorem orderedInsert_last (e : κ × α) (l : List (κ × α)) (h : ∀ a ∈ l, a.1 ≤ e.1) :
    l.orderedInsert (fun a b => a.1 < b.1) e = l ++ [e] := by
  induction l with
  | nil => rfl
  | cons b l ih =>
    have hb : ¬ e.1 < b.1 := Std.not_lt.mpr (h b List.mem_cons_self)
    rw [List.orderedInsert_cons, if_neg hb, ih fun a ha => h a (List.mem_cons_of_mem b ha)]
    rfl

omit [DecidableEq κ] in
/-- A list that is in the order of its keys is left as it is. -/
theorem values_ofKeys_of_sorted (h : l.Pairwise fun a b => key a ≤ key b) :
    (ofKeys key l).values = l := by
  induction l using List.reverseRecOn with
  | nil => rfl
  | append_singleton l a ih =>
    obtain ⟨hl, -, hla⟩ := List.pairwise_append.mp h
    have hfiled : Filed key (ofKeys key l) := filed_ofKeys l
    have hlast : ∀ e ∈ (ofKeys key l).entries, e.1 ≤ key a := by
      intro e he
      have hmem : e.2 ∈ l := by
        rw [← ih hl]
        exact List.mem_map_of_mem he
      rw [hfiled e he]
      exact hla e.2 hmem a (List.mem_singleton_self a)
    rw [ofKeys_concat, values, entries_insert, orderedInsert_last _ _ hlast, List.map_append]
    exact congrArg (· ++ [a]) (ih hl)

end Multimap

end RvnSyncPoint
