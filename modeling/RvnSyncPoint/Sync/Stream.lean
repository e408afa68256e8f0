import RvnSyncPoint.Sync.Calls
import RvnSyncPoint.Sync.Groups
import RvnSyncPoint.Sync.Own

/-!
# The stream of events

The loop of `bin/dump_sync_events` on a recording whose kept records form groups: it gets the events of
the groups, merged where the source merges them, in order and each once (`event_stream`). A reader
`Awaits` the groups that are to come. One pass of the loop takes from them what one of the merged events
is made of (`Awaits.step`), and leaves the reader on its last point, or before the next group (`Lands`).
-/

namespace RvnSyncPoint

open LittleEndian Loop StreamableFile

/-- The reader is between groups, with `gs` to come, and without a data file. -/
structure Awaits (R : Recording) (gs : List Group) (f : SyncFile) : Prop where
  alone : AttachedAlone R f
  grouped : Grouped gs
  kept : ∃ p, gs.flatMap Group.points = (R.keptFrom p).map R.pointAt
  state : Reading R f ∧ Tape.own (R.tape f) = gs.flatMap Group.points ∨ Ended R f ∧ gs = []

/-- Where a reader is left by the event of the complete group `g`, with `gs` to come: on the last point of
the group, or before the next one. -/
def Lands (R : Recording) (g : Group) (gs : List Group) (f : SyncFile) : Prop :=
  ∀ n ∈ g.vmenter, Reading R f ∧ f.current.own = (R.record f.position).decode ∧
    (f.position = n.1 ∨ ∃ g' ∈ gs.head?, f.position + 1 = g'.position)

section

variable {R : Recording} {f k : SyncFile} {e : SyncEvent} {g : Group} {gs pre : List Group} {z : Settled}

/-! ## Kept records -/

theorem Recording.mem_keptFrom {p q : ℕ} :
    q ∈ R.keptFrom p ↔ p + 1 ≤ q ∧ q ≤ R.count ∧ R.keeps q = true := by
  unfold keptFrom
  rw [List.mem_filter, List.mem_range'_1]
  constructor
  · rintro ⟨⟨h1, hlt⟩, hkeep⟩
    exact ⟨h1, by omega, hkeep⟩
  · rintro ⟨h1, hle, hkeep⟩
    exact ⟨⟨h1, by omega⟩, hkeep⟩

theorem Recording.keptFrom_sorted (R : Recording) (p : ℕ) : (R.keptFrom p).Pairwise (· < ·) :=
  List.Pairwise.filter _ (List.pairwise_lt_range')

/-- The kept records from `q` on are those of any earlier place, less the ones before `q`. -/
theorem Recording.keptFrom_filter {p q : ℕ} (hpq : p ≤ q) :
    (R.keptFrom p).filter (q < ·) = R.keptFrom q := by
  refine List.Pairwise.eq_of_mem_iff ((R.keptFrom_sorted p).filter _)
    (R.keptFrom_sorted q) fun k => ?_
  rw [List.mem_filter, mem_keptFrom, mem_keptFrom, decide_eq_true_eq]
  constructor
  · rintro ⟨⟨-, hle, hkeep⟩, hlt⟩
    exact ⟨hlt, hle, hkeep⟩
  · rintro ⟨hlt, hle, hkeep⟩
    exact ⟨⟨by omega, hle, hkeep⟩, hlt⟩

/-- What follows some of the kept records is the kept records from a later place on: from the one before
the first of them. -/
theorem Recording.keptFrom_append {p : ℕ} {T U : Tape} (h : T ++ U = (R.keptFrom p).map R.pointAt) :
    ∃ q, U = (R.keptFrom q).map R.pointAt ∧ ∀ x ∈ U.head?, x.1 = q + 1 := by
  obtain ⟨ks, js, hks, rfl, rfl⟩ := List.map_eq_append_iff.mp h.symm
  cases js with
  | nil => exact ⟨R.count, by simp [keptFrom], by simp⟩
  | cons q js =>
    have hsorted := R.keptFrom_sorted p
    have hq := mem_keptFrom.mp (hks ▸ (by simp : q ∈ ks ++ q :: js))
    rw [hks, List.pairwise_append, List.pairwise_cons] at hsorted
    -- The kept records after `q - 1` are those from `q` on, as they are in order.
    obtain ⟨-, ⟨hjs, -⟩, hlt⟩ := hsorted
    refine ⟨q - 1, ?_, ?_⟩
    · rw [← keptFrom_filter (show p ≤ q - 1 by omega), hks, List.filter_append,
        List.filter_eq_nil_iff.mpr, List.nil_append, List.filter_eq_self.mpr]
      · intro j hj
        rcases List.mem_cons.mp hj with rfl | hj
        · simpa using by omega
        · have hqj := hjs j hj
          simpa using by omega
      · intro j hj
        have hjq := hlt j hj q (by simp)
        simpa using by omega
    · rintro x hx
      obtain rfl : R.pointAt q = x := by simpa using hx
      show q = q - 1 + 1
      omega

/-! ## One pass of the loop -/

theorem Follow.of_append (h : Follow (pre ++ gs)) : Follow gs := by
  induction pre with
  | nil => exact h
  | cons g pre ih =>
    rw [List.cons_append] at h
    generalize hrest : pre ++ gs = rest at h ih
    cases h with
    | cut hg => exact ih .nil
    | cons hg hsane hgs => exact ih hgs

/-- The groups after one of the groups of a file. -/
theorem Grouped.of_append (h : Grouped (pre ++ g :: gs)) :
    Follow gs ∧ (g.vmenter = none → gs = []) := by
  have hfollow : Follow (g :: gs) ∨ Follow gs ∧ g.vmenter ≠ none := by
    generalize hall : pre ++ g :: gs = all at h
    cases h with
    | follow h => exact .inl (hall ▸ h).of_append
    | head hg hfirst hgs =>
      cases pre with
      | nil =>
        cases hall
        exact .inr ⟨hgs, nofun⟩
      | cons g₁ pre =>
        obtain ⟨-, rfl⟩ := List.cons.inj hall
        exact .inl hgs.of_append
  rcases hfollow with h | ⟨h, hne⟩
  · cases h with
    | cut hg => exact ⟨.nil, fun _ => rfl⟩
    | cons hg hsane hgs => exact ⟨hgs, nofun⟩
  · exact ⟨h, fun hnone => absurd hnone hne⟩

/-- A group begins at its position. -/
theorem Group.points_cons (g : Group) : ∃ x T, g.points = x :: T ∧ x.1 = g.position := by
  cases g with
  | head is n =>
    cases is with
    | nil => exact ⟨n, [], rfl, rfl⟩
    | cons i is => exact ⟨i, is ++ [n], rfl, rfl⟩
  | whole x is n => exact ⟨x, is ++ [n], rfl, rfl⟩
  | cut x is => exact ⟨x, is, rfl, rfl⟩

theorem Group.mem_points {n : ℕ × SyncPoint} (h : g.vmenter = some n) : n ∈ g.points := by
  cases g with
  | head is m =>
    cases h
    simp [Group.points]
  | whole x is m =>
    cases h
    simp [Group.points]
  | cut x is => cases h

theorem Settled.own_eq_stay {x : ℕ × SyncPoint} {T : Tape} (h : z.own = .stay e x T) :
    ∃ y U, z = .stay e y U ∧ Tape.ownAt y = x ∧ Tape.own U = T := by
  cases z with
  | stay e' y U =>
    cases h
    exact ⟨y, U, rfl, rfl, rfl⟩
  | hang => cases h
  | thrown err y U => cases h
  | atEnd e' => cases h
  | back e' q => cases h
  | offEnd e' => cases h

theorem Settled.own_eq_back {q : ℕ} (h : z.own = .back e q) : z = .back e q := by
  cases z <;> first | exact h | cases h

theorem Settled.own_eq_atEnd (h : z.own = .atEnd e) : z = .atEnd e := by
  cases z <;> first | exact h | cases h

/-- A reader that stays on the VMEnter of the group `g` awaits the groups that follow. -/
theorem stay_lands {n : ℕ × SyncPoint} {T U : Tape} {y : ℕ × SyncPoint} (halone : AttachedAlone R k)
    (hafter : R.After k (y :: U)) (hn : g.vmenter = some n) (hy : Tape.ownAt y = n)
    (hU : Tape.own U = gs.flatMap Group.points) (hgs : Follow gs) {p q : ℕ}
    (hp : g.points ++ T = (R.keptFrom p).map R.pointAt)
    (hq : gs.flatMap Group.points = (R.keptFrom q).map R.pointAt) :
    Awaits R gs k ∧ Lands R g gs k := by
  obtain ⟨hread, hpos, hcur, htape⟩ := hafter
  -- The VMEnter is a kept record.
  obtain ⟨j, -, hj⟩ : ∃ j ∈ R.keptFrom p, R.pointAt j = Tape.ownAt y := by
    rw [← List.mem_map, ← hp, hy]
    exact List.mem_append_left _ (Group.mem_points hn)
  have hjpos : j = y.1 := congrArg Prod.fst hj
  have hjown : (R.record j).decode = y.2.own := congrArg Prod.snd hj
  constructor
  · refine ⟨halone, .follow hgs, ⟨q, hq⟩, .inl ⟨hread, ?_⟩⟩
    rw [htape]
    exact hU
  · intro m hm
    rw [hn] at hm
    cases hm
    have hyn : (Tape.ownAt y).1 = n.1 := congrArg Prod.fst hy
    refine ⟨hread, ?_, .inl (hpos.trans hyn)⟩
    rw [hcur, hpos, ← hjpos]
    exact hjown.symm

/-- A reader that went back to the point before the group `g₂` awaits it and those that follow. -/
theorem back_lands (hflag : R.Flagged) {g₂ : Group} {gs₂ : List Group} (halone : AttachedAlone R k)
    (hread : Reading R k) (hposition : k.position + 1 = g₂.position)
    (hpoint : R.IsPoint k.position k.current)
    (hcur : ∃ data, k.current = (R.record k.position).point {} data) (hgs : Follow (g₂ :: gs₂)) {q : ℕ}
    (hq : (g₂ :: gs₂).flatMap Group.points = (R.keptFrom q).map R.pointAt)
    (hfirst : ∀ x ∈ ((g₂ :: gs₂).flatMap Group.points).head?, x.1 = q + 1) :
    Awaits R (g₂ :: gs₂) k ∧ Lands R g (g₂ :: gs₂) k := by
  -- Without a data file, the point is the record decoded on its own.
  obtain ⟨data, hdata⟩ := hcur
  have hnone : k.current.data = [] := halone.2.2
  have hdecode : k.current = (R.record k.position).decode := by
    rw [hdata] at hnone ⊢
    obtain rfl : data = [] := hnone
    rfl
  have hown : k.current.own = (R.record k.position).decode := by
    rw [hdecode, SyncRecord.decode_own]
  have hstands := hpoint.stands (hflag k.position hpoint.1 hpoint.2.1)
  -- The tape from there begins with the next group.
  obtain ⟨x, T, hpoints, hx⟩ := g₂.points_cons
  have hxq : x.1 = q + 1 := hfirst x (by simp [hpoints])
  have hqpos : q = k.position := by omega
  have htape : Tape.own (R.tape k) = (g₂ :: gs₂).flatMap Group.points := by
    rw [hq, hqpos]
    exact Recording.tape_own hflag halone.2.1 hstands
  constructor
  · exact ⟨halone, .follow hgs, ⟨q, hq⟩, .inl ⟨hread, htape⟩⟩
  · exact fun m hm => ⟨hread, hown, .inr ⟨g₂, rfl, hposition⟩⟩

/-- The reader that `current_event` leaves when it settles on the event of the group `g`. -/
theorem settled_lands (hflag : R.Flagged) {o : Option (Outcome SyncFile SyncEvent)} (hk : AttachedAlone R k)
    (hevent : k.currentEvent = o.map SyncFile.keep) (hgives : z.Gives R k o)
    (hown : z.own = g.settled e gs) (he : g.event.UpToStart e) (hleaves : g.Leaves gs)
    (hgs : Follow gs) (hcut : g.vmenter = none → gs = [])
    (hkept : ∃ p, (g :: gs).flatMap Group.points = (R.keptFrom p).map R.pointAt) :
    ∃ k', k.currentEvent = some (.returned e k') ∧ k'.current_event = e ∧ Awaits R gs k' ∧
      Lands R g gs k' := by
  have halone : ∀ k', k.currentEvent = some (.returned e k') → AttachedAlone R k' := by
    intro k' hcall
    exact hk.run noData_keptByData (run_currentEvent hcall)
  obtain ⟨p, hp⟩ := hkept
  rw [List.flatMap_cons] at hp
  obtain ⟨q, hq, hfirst⟩ := Recording.keptFrom_append hp
  unfold Group.settled at hown
  cases hn : g.vmenter with
  | none =>
    -- The file ends in the group.
    obtain rfl := hcut hn
    rw [hn] at hown
    obtain rfl := Settled.own_eq_atEnd hown
    cases hgives with
    | atEnd hend hsame =>
      have hawaits : Awaits R [] _ :=
        ⟨halone _ hevent, .follow .nil, ⟨q, hq⟩, .inr ⟨(hend.keep e).1, rfl⟩⟩
      refine ⟨_, hevent, rfl, hawaits, fun n h => ?_⟩
      rw [hn] at h
      cases h
  | some n =>
    rw [hn] at hown
    simp only at hown
    cases heffect : e.withoutEffect with
    | false =>
      rw [heffect, if_neg (by simp)] at hown
      obtain ⟨y, U, rfl, hy, hU⟩ := Settled.own_eq_stay hown
      cases hgives with
      | stay hafter hsame =>
        exact ⟨_, hevent, rfl, stay_lands (halone _ hevent) (hafter.keep e) hn hy hU hgs hp hq⟩
    | true =>
      rw [heffect, if_pos rfl] at hown
      obtain rfl := Settled.own_eq_back hown
      obtain ⟨g₂, gs₂, rfl, -⟩ := hleaves (he.withoutEffect ▸ heffect)
      cases hgives with
      | back hread hpos hpoint hcur hev =>
        have hposition := hpos
        exact ⟨_, hevent, rfl, back_lands hflag (halone _ hevent) (hread.keep e) hposition hpoint hcur
          hgs hq hfirst⟩

/-- With no group to come, the loop ends. -/
theorem Awaits.next_nil (h : Awaits R [] f) : ∃ k, f.next = some k ∧ k.current.valid = false := by
  rcases h.state with ⟨hread, htape⟩ | ⟨hend, -⟩
  · obtain ⟨k, hk, -, ⟨x, T, hcons, -⟩ | ⟨-, hend⟩⟩ := hread.next
    · rw [hcons] at htape
      cases htape
    · exact ⟨k, hk, hend.1.not_valid⟩
  · exact ⟨f, hend.next, hend.not_valid⟩

/-- One pass of the loop gets the first of the merged events, which ends with the group `g'`, and leaves
the groups that follow it, unless the last event of the file is one to be merged. -/
theorem Awaits.step (hflag : R.Flagged) (h : Awaits R (g :: gs) f) :
    ∃ pre g' gs' e k, g :: gs = pre ++ g' :: gs' ∧ g'.event.UpToStart e ∧
      mergeEvents ((g :: gs).map Group.event) = e :: mergeEvents (gs'.map Group.event) ∧
      f.next = some k ∧ k.current.valid = true ∧ (g'.Leaves gs' ∨ gs' = []) ∧
      (g'.Leaves gs' → ∃ k', k.currentEvent = some (.returned e k') ∧ k'.current_event = e ∧
        Awaits R gs' k' ∧ Lands R g' gs' k') := by
  obtain ⟨hread, hown⟩ | ⟨-, hnil⟩ := h.state
  case inr => cases hnil
  obtain ⟨z, Z, hz, -⟩ := g.points_cons
  cases htape : R.tape f with
  | nil =>
    rw [htape, List.flatMap_cons, hz] at hown
    cases hown
  | cons x T =>
    rw [htape] at hown
    obtain ⟨k, o, hnext, hvalid, -, hevent, hgives⟩ := hread.dump htape
    obtain ⟨pre, g', gs', e, hsplit, he, hmerged, hsettled, hleaves⟩ :=
      Tape.current_groups (N := R.count) h.grouped hown
    refine ⟨pre, g', gs', e, k, hsplit, he, hmerged, hnext, hvalid, hleaves, fun hl => ?_⟩
    have hgrouped := h.grouped
    rw [hsplit] at hgrouped
    -- From the group on, the points are still those of kept records.
    have hkept : ∃ p, (g' :: gs').flatMap Group.points = (R.keptFrom p).map R.pointAt := by
      obtain ⟨p, hp⟩ := h.kept
      rw [hsplit, List.flatMap_append] at hp
      obtain ⟨q, hq, -⟩ := Recording.keptFrom_append hp
      exact ⟨q, hq⟩
    have halone : AttachedAlone R k := h.alone.run noData_keptByData (run_next hnext)
    have hblind : (Tape.current R.count x T).own = g'.settled e gs' :=
      Tape.current_own.symm.trans (hsettled hl)
    exact settled_lands hflag halone hevent hgives hblind he hl hgrouped.of_append.1
      hgrouped.of_append.2 hkept

/-! ## The whole loop -/

/-- The loop of `dump_sync_events` gets the events `es` from `f`, and ends. -/
def SyncFile.Dumps (f : SyncFile) (es : List SyncEvent) : Prop :=
  ∃ k k', DumpRun (fun _ => True) f es k ∧ k.next = some k' ∧ k'.current.valid = false

/-- A freshly loaded reader awaits all groups. -/
theorem Loaded.awaits (h : Loaded R none f) (hflag : R.Flagged) (hgrouped : Grouped gs)
    (hpoints : R.kept.map R.pointAt = gs.flatMap Group.points) : Awaits R gs f := by
  obtain ⟨hpos, hcur, -, -⟩ := h.fields
  refine ⟨h.attachedAlone, hgrouped, ⟨0, hpoints.symm⟩, .inl ⟨h.reading, ?_⟩⟩
  rw [← hpoints, Recording.tape_own hflag h.no_data (.inl ⟨hpos, hcur⟩), hpos]
  rfl

/-- The loop goes on to the end from any reader that awaits groups. The induction is on the groups, of
which every pass takes at least one. -/
theorem Awaits.run (hflag : R.Flagged) {f₀ : SyncFile} (n : ℕ) :
    ∀ (gs : List Group) (f : SyncFile) (es : List SyncEvent), gs.length = n → Awaits R gs f →
      DumpRun (fun _ => True) f₀ es f →
      (∃ k, DumpRun (fun _ => True) f₀ (es ++ (mergeEvents (gs.map Group.event)).dropLast) k) ∧
      ((∀ g ∈ gs.getLast?, g.event.withoutEffect = false) →
        f₀.Dumps (es ++ mergeEvents (gs.map Group.event))) := by
  -- The induction is on the groups that are left, of which a pass uses up at least one.
  induction n using Nat.strongRecOn with
  | ind n ih =>
    intro gs f es hn h hrun
    cases gs with
    | nil =>
      obtain ⟨k, hk, hvalid⟩ := h.next_nil
      refine ⟨⟨f, ?_⟩, fun _ => ⟨f, k, ?_, hk, hvalid⟩⟩
      · simpa [mergeEvents] using hrun
      · simpa [mergeEvents] using hrun
    | cons g gs =>
      obtain ⟨pre, g', gs', e, k, hsplit, he, hmerged, hnext, hvalid, hleaves, hstep⟩ := h.step hflag
      rw [hmerged]
      by_cases hl : g'.Leaves gs'
      · -- The pass gets the first of the merged events, and the run goes on with the rest.
        obtain ⟨k', hevent, -, hawaits, -⟩ := hstep hl
        have hlen : gs'.length < n := by
          rw [← hn, hsplit, List.length_append, List.length_cons]
          omega
        obtain ⟨hdrop, hall⟩ := ih gs'.length hlen gs' k' (es ++ [e]) rfl hawaits
          (hrun.step hnext hvalid trivial hevent)
        rw [List.append_assoc, List.singleton_append] at hdrop hall
        constructor
        · rcases List.eq_nil_or_concat (mergeEvents (gs'.map Group.event)) with hnil | ⟨es', e', hes'⟩
          · rw [hnil]
            exact ⟨f, by simpa using hrun⟩
          · rwa [List.dropLast_cons_of_ne_nil (by simp [hes'])]
        · intro hlast
          refine hall fun g₂ hg₂ => hlast g₂ ?_
          rw [hsplit, List.getLast?_append, List.getLast?_cons, Option.mem_def.mp hg₂]
          rfl
      · -- Only the last event of the file can be one to be merged.
        obtain rfl := hleaves.resolve_left hl
        refine ⟨⟨f, by simpa [mergeEvents] using hrun⟩, fun hlast => absurd ?_ hl⟩
        have heffect : g'.event.withoutEffect = false := hlast g' (by simp [hsplit])
        intro heffect'
        rw [heffect] at heffect'
        cases heffect'

/-- The loop of `dump_sync_events`, on a recording without a data file whose kept records form groups:
if the last event is not one to be merged, the loop ends, and gets the events of the groups, merged, each
once and in order. In any case, it gets all of them but the last one. -/
theorem event_stream (R : Recording) (f₀ : SyncFile) (gs : List Group) (h₀ : Loaded R none f₀)
    (hflag : R.Flagged) (hgrouped : Grouped gs)
    (hpoints : R.kept.map R.pointAt = gs.flatMap Group.points) :
    (∃ f, DumpRun (fun _ => True) f₀ (mergeEvents (gs.map Group.event)).dropLast f) ∧
    ((∀ g ∈ gs.getLast?, g.event.withoutEffect = false) →
      f₀.Dumps (mergeEvents (gs.map Group.event))) :=
  Awaits.run hflag gs.length gs f₀ [] rfl (h₀.awaits hflag hgrouped hpoints) .start

end

/-! ## A recording of four groups -/

/-- The kept records of a sequence, from `p` on. -/
theorem Recording.ofRecords_points {rs : List SyncRecord} {htsc : ∀ r ∈ rs, r.tsc ≠ 0}
    {hlen : rs.length ≤ 2 ^ 32} (hflag : (ofRecords rs htsc hlen).Flagged) (p : ℕ) :
    ((ofRecords rs htsc hlen).keptFrom p).map (ofRecords rs htsc hlen).pointAt =
      (Tape.own (tapeOf 0 {} noData rs)).filter (p < ·.1) := by
  obtain ⟨f, hf⟩ : ∃ f, Loaded (ofRecords rs htsc hlen) none f := ofRecords_loaded
  obtain ⟨hpos, hcur, -, -⟩ := hf.fields
  have hown := Recording.tape_own hflag hf.no_data (.inl ⟨hpos, hcur⟩)
  rw [ofRecords_tape hf, hpos] at hown
  rw [hown, List.filter_map, ← Recording.keptFrom_filter (Nat.zero_le p)]
  rfl

/-- A recording without its first VMExit, with an event without effect that is merged with the next one,
and one with an interrupt that is reported twice. -/
def fourGroups : Recording :=
  .ofRecords [.simple 0xff 1 7 5, .simple 0 2 7 5, .simple 0xff 3 7 5, .simple 0 4 7 5,
    .simple 0xff 5 8 5, .simple 0 6 8 5, .simple 0x10e 7 8 5, .simple 0x10e 8 8 5,
    .simple 0xff 9 8 5] (by decide) (by decide)

/-- Its groups. -/
def fourGroupsList : List Group :=
  [.head [] (1, .simple 0xff 1 7 5), .whole (2, .simple 0 2 7 5) [] (3, .simple 0xff 3 7 5),
    .whole (4, .simple 0 4 7 5) [] (5, .simple 0xff 5 8 5),
    .whole (6, .simple 0 6 8 5) [(7, .simple 0x10e 7 8 5), (8, .simple 0x10e 8 8 5)]
      (9, .simple 0xff 9 8 5)]

theorem fourGroups_flagged : fourGroups.Flagged := Recording.ofRecords_flagged (by decide)

theorem fourGroupsList_grouped : Grouped fourGroupsList := by
  refine .head ⟨trivial, by decide⟩ rfl ?_
  refine .cons ⟨by decide, trivial, by decide⟩ rfl ?_
  refine .cons ⟨by decide, trivial, by decide⟩ rfl ?_
  refine .cons ⟨by decide, ⟨by decide, by decide, by decide, ?_⟩, by decide⟩ rfl .nil
  rintro n hn
  cases hn
  decide

theorem fourGroups_points : fourGroups.kept.map fourGroups.pointAt =
    fourGroupsList.flatMap Group.points :=
  Recording.ofRecords_points fourGroups_flagged 0

/-- On it, the loop gets three events. -/
theorem event_stream_fourGroups : ∃ f₀, Loaded fourGroups none f₀ ∧
    f₀.Dumps (mergeEvents (fourGroupsList.map Group.event)) ∧
    (mergeEvents (fourGroupsList.map Group.event)).length = 3 := by
  obtain ⟨f, hf⟩ : ∃ f, Loaded fourGroups none f := Recording.ofRecords_loaded
  refine ⟨f, hf, ?_, by decide⟩
  refine (event_stream fourGroups f fourGroupsList hf fourGroups_flagged fourGroupsList_grouped
    fourGroups_points).2 fun g hg => ?_
  cases hg
  rfl

end RvnSyncPoint
