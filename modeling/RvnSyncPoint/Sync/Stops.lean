import RvnSyncPoint.Sync.Dump

/-!
# Where `next()` stops

Iterating `next()` over a recording returns the points that its records decode to, one after the other
(`Recording.decoded`), less those that `operator==` identifies with the point before them
(`Recording.tape_eq`). So no record is lost exactly if `operator==` does not identify two points that
differ (`next_loses_nothing`), which it may, as it looks neither at the FPU fields nor at the data.
-/

namespace RvnSyncPoint

open LittleEndian Loop StreamableFile

/-! ## The points of a recording -/

/-- The point that the `k`-th record decodes to when the records are read one after the other, and the
data file after it. Before the first record, the point is the default one. -/
def Recording.decoded (R : Recording) (d : StreamableFile) : ℕ → SyncPoint × StreamableFile
  | 0 => ({}, d)
  | k + 1 =>
    let (c, d) := R.decoded d k
    let (data, d) := dataAt (R.record (k + 1)).data_offset d
    ((R.record (k + 1)).point c data, d)

/-- Does `operator==` tell the `k`-th point from the one before it? -/
def Recording.stopsAt (R : Recording) (d : StreamableFile) (k : ℕ) : Bool :=
  !(R.decoded d (k - 1)).1.operatorEq (R.decoded d k).1

/-- The records that `next()` stops at, after the first `p`. -/
def Recording.stops (R : Recording) (d : StreamableFile) (p : ℕ) : List ℕ :=
  (List.range' (p + 1) (R.count - p)).filter (R.stopsAt d)

section

variable {R : Recording} {d : StreamableFile} {f g : SyncFile} {k p : ℕ}

theorem Recording.decoded_isPoint (h1 : 1 ≤ k) (hk : k ≤ R.count) :
    R.IsPoint k (R.decoded d k).1 := by
  obtain ⟨k, rfl⟩ : ∃ j, k = j + 1 := ⟨k - 1, by omega⟩
  exact ⟨h1, hk, _, _, rfl⟩

/-- `next()` always stops at the first record. -/
theorem Recording.stopsAt_one (h : 1 ≤ R.count) : R.stopsAt d 1 = true := by
  have htsc := (R.decoded_isPoint (d := d) le_rfl h).tsc
  unfold stopsAt
  rw [Bool.not_eq_true']
  apply Bool.eq_false_of_not_eq_true
  intro heq
  exact htsc (congrArg SyncPoint.tsc ((SyncPoint.operatorEq_iff _ _).mp heq)).symm

theorem Recording.stops_lt (h : p < R.count) :
    R.stops d p = if R.stopsAt d (p + 1) then (p + 1) :: R.stops d (p + 1) else R.stops d (p + 1) := by
  have hsub : R.count - p = (R.count - (p + 1)) + 1 := by omega
  rw [stops, hsub, List.range'_succ, List.filter_cons]
  rfl

/-- The tape after the first `p` records, from a point `c` that `operator==` identifies with the last of
their points. The induction is on the records that remain; `c` stays as it is while points are
skipped. -/
theorem Recording.tapeOf_eq (R : Recording) (d : StreamableFile) (n : ℕ) : ∀ (p : ℕ) (c : SyncPoint),
    R.count - p = n → c.operatorEq (R.decoded d p).1 = true →
    tapeOf p c (R.decoded d p).2 (R.recordsFrom p) =
      (R.stops d p).map fun k => (k, (R.decoded d k).1) := by
  induction n with
  | zero =>
    intro p c hn hc
    have hnil : R.recordsFrom p = [] := by rw [recordsFrom, hn]; rfl
    have hstops : R.stops d p = [] := by rw [stops, hn]; rfl
    rw [hnil, hstops]
    rfl
  | succ n ih =>
    intro p c hn hc
    have hlt : p < R.count := by omega
    -- The next point is the same from `c` as from the point that it stands for.
    have hpoint : (R.record (p + 1)).point c
        (dataAt (R.record (p + 1)).data_offset (R.decoded d p).2).1 = (R.decoded d (p + 1)).1 :=
      SyncRecord.point_congr _ _ (SyncPoint.operatorEq_vector hc)
    have hdata : (dataAt (R.record (p + 1)).data_offset (R.decoded d p).2).2 =
        (R.decoded d (p + 1)).2 := rfl
    have hsame : c.operatorEq (R.decoded d (p + 1)).1 =
        (R.decoded d p).1.operatorEq (R.decoded d (p + 1)).1 := by
      rw [Bool.eq_iff_iff, SyncPoint.operatorEq_iff, SyncPoint.operatorEq_iff,
        (SyncPoint.operatorEq_iff _ _).mp hc]
    rw [R.recordsFrom_lt hlt, R.stops_lt hlt, tapeOf]
    dsimp only
    rw [hpoint, hdata, hsame]
    have hstop : R.stopsAt d (p + 1) = !(R.decoded d p).1.operatorEq (R.decoded d (p + 1)).1 := rfl
    cases heq : (R.decoded d p).1.operatorEq (R.decoded d (p + 1)).1 with
    | true =>
      rw [if_pos rfl, if_neg (by simp [hstop, heq])]
      exact ih (p + 1) c (by omega) (hsame.trans heq)
    | false =>
      rw [if_neg (by simp), if_pos (by simp [hstop, heq]), List.map_cons]
      rw [ih (p + 1) _ (by omega) ((SyncPoint.operatorEq_iff _ _).mpr rfl)]

/-- The tape of a freshly loaded reader. -/
theorem Recording.tape_eq {data : Option (List UInt8)} (h : Loaded R data f) :
    R.tape f = (R.stops f.data_file 0).map fun k => (k, (R.decoded f.data_file k).1) := by
  obtain ⟨hpos, hcur, -, -⟩ := h.fields
  rw [tape, hpos, hcur]
  exact R.tapeOf_eq f.data_file R.count 0 {} rfl ((SyncPoint.operatorEq_iff _ _).mpr rfl)

theorem Recording.tape_map_fst {data : Option (List UInt8)} (h : Loaded R data f) :
    (R.tape f).map Prod.fst = R.stops f.data_file 0 := by
  rw [Recording.tape_eq h, List.map_map]
  exact List.map_id _

/-! ## Iterating -/

theorem Ended.nexts (h : Ended R f) (i : ℕ) : nexts i f = some f := by
  induction i with
  | zero => rfl
  | succ i ih => simp [RvnSyncPoint.nexts, h.next, ih]

/-- The reader after `i + 1` calls of `next()` has read the tape up to its element `i`. -/
theorem Reading.nexts (i : ℕ) : ∀ f, Reading R f →
    ∃ g, nexts (i + 1) f = some g ∧ R.After g ((R.tape f).drop i) := by
  induction i with
  | zero =>
    intro f h
    obtain ⟨g, hg, hafter, -⟩ := next_reading h
    exact ⟨g, by simp [RvnSyncPoint.nexts, hg], hafter⟩
  | succ i ih =>
    intro f h
    obtain ⟨g, hg, hafter, -⟩ := next_reading h
    have hstep : RvnSyncPoint.nexts (i + 1 + 1) f = RvnSyncPoint.nexts (i + 1) g := by
      rw [RvnSyncPoint.nexts, hg]
      rfl
    rw [hstep]
    cases htape : R.tape f with
    | nil =>
      -- The end of the file was met before.
      rw [htape] at hafter
      exact ⟨g, hafter.1.nexts _, hafter⟩
    | cons x T =>
      rw [htape] at hafter
      obtain ⟨k, hk, hafter'⟩ := ih g hafter.1
      rw [hafter.2.2.2] at hafter'
      exact ⟨k, hk, hafter'⟩

/-- Iterating `next()` from a freshly loaded reader: the `i`-th call stops at the `i`-th of the stops,
and the calls after the last of them at the end of the file. -/
theorem Loaded.nexts {data : Option (List UInt8)} (h : Loaded R data f) (i : ℕ) :
    ∃ g, nexts (i + 1) f = some g ∧
      match (R.stops f.data_file 0)[i]? with
      | some k => Reading R g ∧ g.position = k ∧ g.current = (R.decoded f.data_file k).1
      | none => Ended R g := by
  obtain ⟨g, hg, hafter⟩ := h.reading.nexts i
  refine ⟨g, hg, ?_⟩
  rw [Recording.tape_eq h, ← List.map_drop] at hafter
  cases hi : (R.stops f.data_file 0)[i]? with
  | none =>
    rw [List.drop_eq_nil_of_le (List.getElem?_eq_none_iff.mp hi)] at hafter
    exact hafter.1
  | some k =>
    obtain ⟨hlt, hk⟩ := List.getElem?_eq_some_iff.mp hi
    rw [List.drop_eq_getElem_cons hlt, hk, List.map_cons] at hafter
    exact ⟨hafter.1, hafter.2.1, hafter.2.2.1⟩

theorem Recording.mem_stops : k ∈ R.stops d 0 ↔ 1 ≤ k ∧ k ≤ R.count ∧ R.stopsAt d k = true := by
  unfold stops
  rw [List.mem_filter, List.mem_range'_1]
  constructor
  · rintro ⟨⟨h1, hlt⟩, hstop⟩
    exact ⟨h1, by omega, hstop⟩
  · rintro ⟨h1, hle, hstop⟩
    exact ⟨⟨h1, by omega⟩, hstop⟩

/-! ## Records that are lost -/

/-- Iterating `next()` until it returns an invalid point returns the point `c` at the position `k`. -/
def SyncFile.Returns (f : SyncFile) (k : ℕ) (c : SyncPoint) : Prop :=
  ∃ i g, RvnSyncPoint.nexts (i + 1) f = some g ∧ g.position = k ∧ g.current = c ∧
    ∀ j ≤ i, ∃ g', RvnSyncPoint.nexts (j + 1) f = some g' ∧ g'.current.valid = true

/-- The records that are returned are those that `next()` stops at. -/
theorem Loaded.returns_iff {data : Option (List UInt8)} (h : Loaded R data f) (h1 : 1 ≤ k)
    (hk : k ≤ R.count) :
    f.Returns k (R.decoded f.data_file k).1 ↔ R.stopsAt f.data_file k = true := by
  constructor
  · rintro ⟨i, g, hg, hpos, -, hvalid⟩
    obtain ⟨g', hg', hat⟩ := h.nexts i
    rw [hg] at hg'
    cases hg'
    cases hi : (R.stops f.data_file 0)[i]? with
    | some j =>
      rw [hi] at hat
      have hj : j = k := hat.2.1.symm.trans hpos
      exact (Recording.mem_stops.mp (hj ▸ List.mem_of_getElem? hi)).2.2
    | none =>
      -- After the end of the file no point is valid.
      rw [hi] at hat
      obtain ⟨g', hg', hv⟩ := hvalid i le_rfl
      rw [hg] at hg'
      cases hg'
      rw [hat.not_valid] at hv
      cases hv
  · intro hstop
    obtain ⟨i, hi⟩ := List.getElem?_of_mem (Recording.mem_stops.mpr ⟨h1, hk, hstop⟩)
    obtain ⟨g, hg, hat⟩ := h.nexts i
    rw [hi] at hat
    refine ⟨i, g, hg, hat.2.1, hat.2.2, ?_⟩
    intro j hj
    obtain ⟨g', hg', hat'⟩ := h.nexts j
    refine ⟨g', hg', ?_⟩
    obtain ⟨l, hl⟩ : ∃ l, (R.stops f.data_file 0)[j]? = some l := by
      have hlt := (List.getElem?_eq_some_iff.mp hi).1
      exact ⟨_, List.getElem?_eq_getElem (by omega)⟩
    rw [hl] at hat'
    obtain ⟨hl1, hlk, -⟩ := Recording.mem_stops.mp (List.mem_of_getElem? hl)
    rw [hat'.2.2]
    exact (R.decoded_isPoint hl1 hlk).valid

/-- Points that `operator==` identifies are the same if they agree on what it does not look at. -/
theorem SyncPoint.eq_iff (p q : SyncPoint) : p = q ↔ p.operatorEq q = true ∧ p.fpu_sw = q.fpu_sw ∧
    p.fpu_cw = q.fpu_cw ∧ p.fpu_tags = q.fpu_tags ∧ p.data = q.data := by
  constructor
  · rintro rfl
    exact ⟨(operatorEq_iff p p).mpr rfl, rfl, rfl, rfl, rfl⟩
  · rintro ⟨heq, hsw, hcw, htags, hdata⟩
    rw [operatorEq_iff] at heq
    calc p = { p.compared with fpu_sw := p.fpu_sw, fpu_cw := p.fpu_cw, fpu_tags := p.fpu_tags
                               data := p.data } := rfl
      _ = { q.compared with fpu_sw := q.fpu_sw, fpu_cw := q.fpu_cw, fpu_tags := q.fpu_tags
                            data := q.data } := by rw [heq, hsw, hcw, htags, hdata]
      _ = q := rfl

/-- Every record whose point differs from the one before it is returned exactly if points that
`operator==` identifies also agree on the FPU fields and the data. The points are those that the records
decode to one after the other, with the data file that was loaded. -/
theorem next_loses_nothing (R : Recording) (data : Option (List UInt8)) (f₀ : SyncFile)
    (h₀ : Loaded R data f₀) :
    (∀ k, 1 < k → k ≤ R.count →
      (R.decoded f₀.data_file k).1 ≠ (R.decoded f₀.data_file (k - 1)).1 →
      f₀.Returns k (R.decoded f₀.data_file k).1) ↔
    ∀ k, 1 < k → k ≤ R.count →
      (R.decoded f₀.data_file (k - 1)).1.operatorEq (R.decoded f₀.data_file k).1 = true →
      (R.decoded f₀.data_file (k - 1)).1.fpu_sw = (R.decoded f₀.data_file k).1.fpu_sw ∧
      (R.decoded f₀.data_file (k - 1)).1.fpu_cw = (R.decoded f₀.data_file k).1.fpu_cw ∧
      (R.decoded f₀.data_file (k - 1)).1.fpu_tags = (R.decoded f₀.data_file k).1.fpu_tags ∧
      (R.decoded f₀.data_file (k - 1)).1.data = (R.decoded f₀.data_file k).1.data := by
  -- A record is returned exactly if `operator==` tells it from the one before.
  constructor
  · intro hreturns k h1 hk heq
    by_contra hdiff
    have hne : (R.decoded f₀.data_file k).1 ≠ (R.decoded f₀.data_file (k - 1)).1 := by
      intro hsame
      exact hdiff ((SyncPoint.eq_iff _ _).mp hsame.symm).2
    have hstop := (h₀.returns_iff (by omega) hk).mp (hreturns k h1 hk hne)
    simp [Recording.stopsAt, heq] at hstop
  · intro hsame k h1 hk hne
    apply (h₀.returns_iff (by omega) hk).mpr
    unfold Recording.stopsAt
    rw [Bool.not_eq_true']
    apply Bool.eq_false_of_not_eq_true
    intro heq
    exact hne ((SyncPoint.eq_iff _ _).mpr ⟨heq, hsame k h1 hk heq⟩).symm

/-- On the recording `effectAtEnd`, no two points are identified. -/
theorem next_loses_nothing_effect : ∃ f₀, Loaded effectAtEnd none f₀ ∧
    f₀.Returns 2 (effectAtEnd.decoded f₀.data_file 2).1 := by
  obtain ⟨f, hf⟩ : ∃ f, Loaded effectAtEnd none f := Recording.ofRecords_loaded
  have htape : effectAtEnd.tape f =
      [(1, .simple 0xff 1 7 5), (2, .simple 0 2 7 5), (3, .simple 0xff 3 8 5)] :=
    Recording.ofRecords_tape hf
  have hstops : effectAtEnd.stops f.data_file 0 = [1, 2, 3] := by
    rw [← Recording.tape_map_fst hf, htape]
    rfl
  have hstop : ∀ k, 1 ≤ k → k ≤ 3 → effectAtEnd.stopsAt f.data_file k = true := by
    intro k h1 hk
    refine (Recording.mem_stops.mp ?_).2.2
    rw [hstops]
    interval_cases k <;> simp
  refine ⟨f, hf, (next_loses_nothing effectAtEnd none f hf).mpr ?_ 2 (by decide) (by decide) ?_⟩
  · intro k h1 hk heq
    have hk' := hstop k (by omega) hk
    simp [Recording.stopsAt, heq] at hk'
  · intro hsame
    have h2 := hstop 2 (by decide) (by decide)
    rw [Recording.stopsAt, hsame] at h2
    simp [(SyncPoint.operatorEq_iff _ _).mpr rfl] at h2

/-- A recording of two VMExits that differ in the FPU status word alone. -/
def fpuChange : Recording :=
  .ofRecords [.simple 0 1 7 5, { SyncRecord.simple 0 1 7 5 with fpu_sw := 1 }] (by decide) (by decide)

@[simp]
theorem SyncRecord.point_fpu_sw (r : SyncRecord) (p : SyncPoint) (data : List SyncPointData) :
    (r.point p data).fpu_sw = r.fpu_sw := by
  unfold point SyncPoint.storeType
  split_ifs <;> rfl

/-- Its second record is not returned. -/
theorem next_loses_fpu : ¬ ∀ (R : Recording) (data : Option (List UInt8)) (f₀ : SyncFile) (k : ℕ),
    Loaded R data f₀ → 1 < k → k ≤ R.count →
    (R.decoded f₀.data_file k).1 ≠ (R.decoded f₀.data_file (k - 1)).1 →
    f₀.Returns k (R.decoded f₀.data_file k).1 := by
  intro halways
  obtain ⟨f, hf⟩ : ∃ f, Loaded fpuChange none f := Recording.ofRecords_loaded
  have htape : fpuChange.tape f = [(1, .simple 0 1 7 5)] := Recording.ofRecords_tape hf
  have hstops : fpuChange.stops f.data_file 0 = [1] := by
    rw [← Recording.tape_map_fst hf, htape]
    rfl
  have hdiff : (fpuChange.decoded f.data_file 2).1 ≠ (fpuChange.decoded f.data_file (2 - 1)).1 := by
    intro hsame
    have hsw := congrArg SyncPoint.fpu_sw hsame
    have h1 : fpuChange.record 1 = .simple 0 1 7 5 := Recording.ofRecords_record (by decide)
    have h2 : fpuChange.record 2 = { SyncRecord.simple 0 1 7 5 with fpu_sw := 1 } :=
      Recording.ofRecords_record (by decide)
    simp only [Recording.decoded, SyncRecord.point_fpu_sw, Nat.reduceAdd, Nat.reduceSub, h1, h2] at hsw
    exact absurd hsw (by decide)
  have hreturns := halways _ none f 2 hf (by decide) (by decide) hdiff
  have hmem := Recording.mem_stops.mpr ⟨by decide, by decide,
    (hf.returns_iff (k := 2) (by decide) (by decide)).mp hreturns⟩
  rw [hstops] at hmem
  simp at hmem

end

end RvnSyncPoint
