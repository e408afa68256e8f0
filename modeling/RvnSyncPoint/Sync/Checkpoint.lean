import RvnSyncPoint.Sync.Advance
import RvnSyncPoint.Sync.Stream

/-!
# Checkpoints

A position that the loop of `bin/dump_sync_events` was at after an event is a checkpoint: `advance_to` to
it, on any reader that has the recording open, gets the same event again, up to the registers' start
values, and leaves the reader at the same point (`advanceTo_restores`). The event is aggregated again from
the last of the groups that it was merged from (`OnRecord.restores`). This is where it matters that no two
records are the same: the groups are then at consecutive positions.
-/

namespace RvnSyncPoint

open LittleEndian Loop StreamableFile

/-- No record is identified by `operator==` with the one before it. -/
def Recording.Distinct (R : Recording) : Prop :=
  ∀ k, 1 < k → k ≤ R.count → (R.record (k - 1)).decode.operatorEq (R.record k).decode = false

/-- The complete group `g`, which ends with `n`, and the groups `gs` after it are those of the records of
the file from its position on. -/
structure Recording.Consecutive (R : Recording) (g : Group) (gs : List Group) (n : ℕ × SyncPoint) :
    Prop where
  grouped : Grouped (g :: gs)
  vmenter : g.vmenter = some n
  points : (g :: gs).flatMap Group.points =
    (List.range' g.position (R.count + 1 - g.position)).map R.pointAt
  first : g.points = (List.range' g.position (n.1 - g.position + 1)).map R.pointAt
  one_le : 1 ≤ g.position
  le : g.position ≤ n.1
  le_count : n.1 ≤ R.count
  eq_pointAt : n = R.pointAt n.1
  next : ∀ g' ∈ gs.head?, g'.position = n.1 + 1

section

variable {R : Recording} {f f₀ h k : SyncFile} {e : SyncEvent} {es : List SyncEvent} {g : Group}
  {gs pre : List Group} {n : ℕ × SyncPoint} {T U : Tape}

/-! ## Groups at consecutive positions -/

theorem Recording.Distinct.keptFrom (hR : R.Distinct) (p : ℕ) :
    R.keptFrom p = List.range' (p + 1) (R.count - p) := by
  unfold Recording.keptFrom
  refine List.filter_eq_self.mpr fun k hk => ?_
  obtain ⟨h1, hlt⟩ := List.mem_range'_1.mp hk
  unfold Recording.keeps
  rcases Nat.lt_or_ge 1 k with hk1 | hk1
  · rw [hR k hk1 (by omega)]
    simp
  · obtain rfl : k = 1 := by omega
    rfl

/-- The first of consecutive points, and those that follow them. -/
theorem Recording.pointAt_append {s m : ℕ} (h : T ++ U = (List.range' s m).map R.pointAt) :
    T = (List.range' s T.length).map R.pointAt ∧
      U = (List.range' (s + T.length) (m - T.length)).map R.pointAt := by
  obtain ⟨ks, js, hks, rfl, rfl⟩ := List.map_eq_append_iff.mp h.symm
  obtain ⟨l, hl, rfl, rfl⟩ := List.range'_eq_append_iff.mp hks
  rw [List.length_map, List.length_range', Nat.mul_one]
  exact ⟨rfl, rfl⟩

/-- A group ends with its VMEnter. -/
theorem Group.points_vmenter (h : g.vmenter = some n) : ∃ T, g.points = T ++ [n] := by
  cases g with
  | head is m =>
    cases h
    exact ⟨is, rfl⟩
  | whole x is m =>
    cases h
    exact ⟨x :: is, rfl⟩
  | cut x is => cases h

/-- From one of the groups of a file on. -/
theorem Grouped.suffix (hgs : Grouped (pre ++ gs)) : Grouped gs := by
  cases pre with
  | nil => exact hgs
  | cons g₁ pre =>
    cases gs with
    | nil => exact .follow .nil
    | cons g gs =>
      generalize hall : g₁ :: pre ++ g :: gs = all at hgs
      cases hgs with
      | follow hgs => exact .follow (hall ▸ hgs).of_append
      | head hg hfirst hgs =>
        obtain ⟨-, rfl⟩ := List.cons.inj hall
        exact .follow hgs.of_append

/-- The groups of a file in which no two records are the same are at consecutive positions. -/
theorem Grouped.consecutive (hgrouped : Grouped (pre ++ g :: gs)) (hn : g.vmenter = some n)
    (hpoints : (List.range' 1 R.count).map R.pointAt = (pre ++ g :: gs).flatMap Group.points) :
    R.Consecutive g gs n := by
  rw [List.flatMap_append] at hpoints
  obtain ⟨-, hsuffix⟩ := Recording.pointAt_append hpoints.symm
  generalize (pre.flatMap Group.points).length = l at hsuffix
  obtain ⟨hfirst, hrest⟩ := Recording.pointAt_append ((List.flatMap_cons ..).symm.trans hsuffix)
  obtain ⟨T, hT⟩ := Group.points_vmenter hn
  have hlen : g.points.length = T.length + 1 := by rw [hT, List.length_append, List.length_singleton]
  rw [hlen] at hfirst hrest
  have hposition : g.position = 1 + l := by
    obtain ⟨x, U, hcons, hx⟩ := g.points_cons
    rw [hcons, List.range'_succ] at hfirst
    rw [← hx, (List.cons.inj hfirst).1]
    rfl
  -- The VMEnter is the last of its points.
  have hlast : n = R.pointAt (1 + l + T.length) := by
    have happend : T ++ [n] = (List.range' (1 + l) (T.length + 1)).map R.pointAt := by rw [← hT, hfirst]
    obtain ⟨-, hone⟩ := Recording.pointAt_append happend
    rw [Nat.add_sub_cancel_left] at hone
    exact (List.cons.inj hone).1
  have hpos : n.1 = 1 + l + T.length := congrArg Prod.fst hlast
  have hcount : n.1 ≤ R.count := by
    have hlength := congrArg List.length hsuffix
    rw [List.flatMap_cons, List.length_append, List.length_map, List.length_range', hlen] at hlength
    omega
  refine ⟨hgrouped.suffix, hn, ?_, ?_, by omega, by omega, hcount, hpos ▸ hlast, fun g' hg' => ?_⟩
  · have hsub : R.count + 1 - g.position = R.count - l := by omega
    rw [hsuffix, hsub, hposition]
  · have hsub : n.1 - g.position + 1 = T.length + 1 := by omega
    rw [hsub, hposition, ← hfirst]
  · cases gs with
    | nil => cases hg'
    | cons g₂ gs =>
      obtain rfl : g₂ = g' := by simpa using hg'
      obtain ⟨x, U, hcons, hx⟩ := g₂.points_cons
      rw [List.flatMap_cons, hcons] at hrest
      obtain ⟨j, js, hj, hxj, -⟩ := List.map_eq_cons_iff.mp hrest.symm
      have hj1 : j = 1 + l + (T.length + 1) := by
        rw [List.range'_eq_cons_iff] at hj
        exact hj.1.symm
      rw [← hx, ← hxj, hpos]
      show j = _
      omega

theorem Tape.Interrupts.all_isInterrupt {is : Tape} {vmenter : Option (ℕ × SyncPoint)}
    (h : is.Interrupts vmenter) : ∀ i ∈ is, i.2.isInterrupt = true := by
  match is, h with
  | [], _ => simp
  | [i], h => simpa using h.1
  | [i, i'], h => simpa using ⟨h.1, h.2.1⟩

/-- Only the first point of a complete group can be a VMExit, and it is one, or the first of the file. -/
theorem Group.isVmexit (hg : g.WellFormed) (hn : g.vmenter = some n) :
    ∃ x T, g.points = x :: T ∧ (∀ y ∈ T, y.2.isVmexit = false) ∧
      (x.2.isVmexit = true ∨ x.2.isVmexit = false ∧ ∃ is, g = .head is n) := by
  have hkinds : ∀ {is : Tape}, is.Interrupts (some n) → n.2.isVmenter = true →
      ∀ y ∈ is ++ [n], y.2.isVmexit = false := by
    intro is his hvmenter y hy
    rcases List.mem_append.mp hy with hy | hy
    · simp [SyncPoint.isVmexit, his.all_isInterrupt y hy]
    · obtain rfl : y = n := by simpa using hy
      exact Tape.isVmexit_of_isVmenter hvmenter
  cases g with
  | head is m =>
    cases hn
    obtain ⟨his, hvmenter⟩ := hg
    obtain ⟨x, T, hpoints, -⟩ := (Group.head is n).points_cons
    have hall : ∀ y ∈ (Group.head is n).points, y.2.isVmexit = false := hkinds his hvmenter
    rw [hpoints] at hall
    exact ⟨x, T, hpoints, fun y hy => hall y (by simp [hy]), .inr ⟨hall x (by simp), is, rfl⟩⟩
  | whole x is m =>
    cases hn
    obtain ⟨hx, his, hvmenter⟩ := hg
    exact ⟨x, is ++ [n], rfl, hkinds his hvmenter, .inl hx⟩
  | cut x is => cases hn

theorem Grouped.wellFormed (hgs : Grouped gs) : ∀ g ∈ gs, g.WellFormed := by
  have hfollow : ∀ {gs : List Group}, Follow gs → ∀ g ∈ gs, g.WellFormed := by
    intro gs hgs
    induction hgs with
    | nil => simp
    | cut hg => simpa using hg
    | cons hg hsane hgs ih => simpa using ⟨hg, ih⟩
  cases hgs with
  | follow hgs => exact hfollow hgs
  | head hg hfirst hgs => simpa using ⟨hg, hfollow hgs⟩

/-! ## Restoring a checkpoint -/

/-- On the first record of a group whose event is not merged with the next one, `current_event` gets
that event. -/
theorem OnRecord.restores (hflag : R.Flagged) (hR : R.Distinct) (hg : R.Consecutive g gs n)
    (hleaves : g.Leaves gs) (hk : OnRecord R True g.position k) :
    ∃ k', k.currentEvent = some (.returned g.event k') ∧ k'.current_event = g.event ∧
      Awaits R gs k' ∧ Lands R g gs k' := by
  have h1 := hk.one_le
  have hle := hk.le_count
  have hcurrent : k.current = (R.record g.position).decode := hk.current trivial
  have hown : k.current.own = (R.record g.position).decode := by
    rw [hcurrent, SyncRecord.decode_own]
  have hstands : R.Stands k.position k.current := by
    rw [hk.pos]
    exact Recording.IsPoint.stands ⟨h1, hle, {}, [], hcurrent⟩ (hflag _ h1 hle)
  -- The reader's point and its tape are the groups from `g` on.
  have htape : Tape.ownAt (k.position, k.current) :: Tape.own (R.tape k) =
      (g :: gs).flatMap Group.points := by
    have hsub : R.count + 1 - g.position = (R.count - g.position) + 1 := by omega
    rw [Recording.tape_own hflag (hk.no_data trivial).1 hstands, hg.points, hk.pos, hR.keptFrom, hsub,
      List.range'_succ, List.map_cons, Tape.ownAt, hown]
    rfl
  obtain ⟨o, ho, hgives⟩ := currentEvent_spec hk.after hk.event fun _ => hk.pos ▸ h1
  have hfollow := (show Grouped ([] ++ g :: gs) from hg.grouped).of_append
  have hblind : (Tape.current R.count (k.position, k.current) (R.tape k)).own =
      g.settled g.event gs := by
    rw [← Tape.current_own, Tape.current_group hg.grouped htape]
    exact Tape.settleGroup_leaves hfollow.1 hfollow.2 (.refl _) hleaves
  have hkept : ∃ p, (g :: gs).flatMap Group.points = (R.keptFrom p).map R.pointAt := by
    refine ⟨g.position - 1, ?_⟩
    have hp : g.position - 1 + 1 = g.position := by omega
    have hsub : R.count - (g.position - 1) = R.count + 1 - g.position := by omega
    rw [hg.points, hR.keptFrom, hp, hsub]
  exact settled_lands hflag ⟨hk.toAttached, hk.no_data trivial⟩ ho hgives hblind (.refl _) hleaves
    hfollow.1 hfollow.2 hkept

/-- What the loop has done in a run: it got the event of the last of the groups that it went past. -/
theorem DumpRun.awaits (hflag : R.Flagged) (hrun : DumpRun (fun _ => True) f₀ es f)
    (h₀ : Awaits R gs f₀) (hlast : ∀ g ∈ gs.getLast?, g.event.withoutEffect = false) :
    ∃ gs', Awaits R gs' f ∧ (∃ pre, gs = pre ++ gs') ∧
      ∀ e ∈ es.getLast?, ∃ pre g, gs = pre ++ g :: gs' ∧ g.event.UpToStart e ∧ g.Leaves gs' ∧
        Lands R g gs' f := by
  induction hrun with
  | start => exact ⟨gs, h₀, ⟨[], rfl⟩, by simp⟩
  | step hrun hnext hvalid hok hevent ih =>
    obtain ⟨gs', hawaits, ⟨pre, rfl⟩, -⟩ := ih
    cases gs' with
    | nil =>
      -- With no group to come, the loop would have ended.
      obtain ⟨k, hk, hinvalid⟩ := hawaits.next_nil
      rw [hnext] at hk
      cases hk
      rw [hvalid] at hinvalid
      cases hinvalid
    | cons g gs' =>
      obtain ⟨pre', g', gs₂, e', k, hsplit, he, -, hk, -, hleaves, hstep⟩ := hawaits.step hflag
      rw [hnext] at hk
      cases hk
      -- The last event of the file has an effect, so that its group is left as well.
      have hl : g'.Leaves gs₂ := by
        refine hleaves.elim id fun hnil heffect => ?_
        have hno := hlast g' (by rw [hsplit, hnil]; simp)
        rw [heffect] at hno
        cases hno
      obtain ⟨k', hk', -, hawaits', hlands⟩ := hstep hl
      rw [hevent] at hk'
      cases hk'
      refine ⟨gs₂, hawaits', ⟨pre ++ (pre' ++ [g']), by simp [hsplit]⟩, fun e he' => ?_⟩
      rw [List.getLast?_concat] at he'
      cases he'
      exact ⟨pre ++ pre', g', by simp [hsplit], he, hl, hlands⟩

theorem SyncEvent.UpToStart.symm {e' : SyncEvent} (h : e.UpToStart e') : e'.UpToStart e := by
  obtain ⟨hvalues, heq⟩ := h
  refine ⟨?_, by rw [heq]⟩
  rw [Context.areValuesEquivalent_iff] at hvalues ⊢
  exact hvalues.symm

/-- The record that the loop of `advance_to` goes back to from the VMEnter of a group is the first one of
the group. -/
theorem Recording.Consecutive.back {j : ℕ} (hg : R.Consecutive g gs n) (h1 : 1 ≤ j) (hj : j ≤ n.1)
    (hstart : (R.record j).isVmexit = true ∨ j = 1)
    (hbetween : ∀ i, j < i → i ≤ n.1 → (R.record i).isVmexit = false) : j = g.position := by
  have hle := hg.le
  have hfirst := hg.first
  obtain ⟨x, T, hcons, htail, hx⟩ := Group.isVmexit (hg.grouped.wellFormed g (by simp)) hg.vmenter
  rw [hcons, List.range'_succ, List.map_cons] at hfirst
  obtain ⟨rfl, rfl⟩ := List.cons.inj hfirst
  -- After its first record, a group has no VMExit.
  have hafter : ∀ i, g.position < i → i ≤ n.1 → (R.record i).isVmexit = false := by
    intro i hlt hin
    have hmem : R.pointAt i ∈ (List.range' (g.position + 1) (n.1 - g.position)).map R.pointAt :=
      List.mem_map_of_mem (List.mem_range'_1.mpr ⟨by omega, by omega⟩)
    exact (SyncRecord.point_isVmexit _ _ _).symm.trans (htail _ hmem)
  rcases Nat.lt_trichotomy j g.position with hlt | heq | hgt
  · rcases hx with hx | ⟨-, is, rfl⟩
    · have hvmexit : (R.record g.position).isVmexit = true :=
        (SyncRecord.point_isVmexit _ _ _).symm.trans hx
      rw [hbetween g.position hlt hle] at hvmexit
      cases hvmexit
    · -- Only the first group of a file has no VMExit.
      cases hg.grouped with
      | follow h => cases h
      | head hwell hone hgs => omega
  · exact heq
  · rcases hstart with hstart | rfl
    · rw [hafter j hgt hj] at hstart
      cases hstart
    · have hone := hg.one_le
      omega

/-- The last record of a complete group is a VMEnter. -/
theorem Recording.Consecutive.isVmenter (hg : R.Consecutive g gs n) :
    (R.record n.1).isVmenter = true := by
  have hwell := hg.grouped.wellFormed g (by simp)
  have hkind : n.2.isVmenter = true := by
    have hn := hg.vmenter
    cases g with
    | head is m =>
      cases hn
      exact hwell.2
    | whole x is m =>
      cases hn
      exact hwell.2.2
    | cut x is => cases hn
  rw [hg.eq_pointAt] at hkind
  exact (SyncRecord.point_isVmenter _ _ _).symm.trans hkind

/-- The event of a group leaves the reader on the last record of the group. -/
theorem Lands.position (hlands : Lands R g gs f) (hg : R.Consecutive g gs n) :
    f.position = n.1 ∧ f.current.own = n.2 := by
  obtain ⟨hread, hown, hpos⟩ := hlands n hg.vmenter
  have hposition : f.position = n.1 := by
    rcases hpos with hpos | ⟨g', hg', hpos⟩
    · exact hpos
    · have hnext := hg.next g' hg'
      omega
  refine ⟨hposition, ?_⟩
  rw [hown, hposition]
  exact (congrArg Prod.snd hg.eq_pointAt).symm

/-- `advance_to` to the last record of a group whose event is not merged with the next one gets that
event, on any reader that has the file open. -/
theorem AttachedAlone.advanceTo (hflag : R.Flagged) (hR : R.Distinct) (hg : R.Consecutive g gs n)
    (hleaves : g.Leaves gs) (hatt : AttachedAlone R h) :
    ∃ k, h.advanceTo n.1 = some (.returned () k) ∧ k.current_event = g.event ∧ Awaits R gs k ∧
      Lands R g gs k := by
  have h1 := hg.one_le
  have hle := hg.le
  obtain ⟨k, j, hadvance, hk, hj, hstart, hbetween⟩ := advanceTo_vmenter hatt.1
    (fun _ : True => hatt.2.1) (by omega) hg.le_count hg.isVmenter
  obtain rfl := hg.back hk.one_le hj hstart hbetween
  obtain ⟨k', hevent, hcached, hawaits, hlands⟩ := hk.restores hflag hR hg hleaves
  refine ⟨k', ?_, hcached, hawaits, hlands⟩
  rw [hadvance, hevent]
  rfl

/-- `advance_to` to the position that the loop of `dump_sync_events` was at after an event restores it:
on any reader of the same file, it ends at that position and on the same point, `current_event` then
returns the event again, up to the values of its start context, and the loop goes on with the same
events. -/
theorem advanceTo_restores (R : Recording) (gs : List Group) (f₀ f₁ f h : SyncFile)
    (es : List SyncEvent) (e : SyncEvent) (h₀ : Loaded R none f₀) (h₁ : Loaded R none f₁)
    (hflag : R.Flagged) (hdistinct : R.Distinct) (hgrouped : Grouped gs)
    (hpoints : (List.range' 1 R.count).map R.pointAt = gs.flatMap Group.points)
    (hlast : ∀ g ∈ gs.getLast?, g.event.withoutEffect = false)
    (hrun : DumpRun (fun _ => True) f₀ (es ++ [e]) f) (he : e.is_last_event = false)
    (hcalls : Run (fun _ _ => True) f₁ h) :
    ∃ k e', h.advanceTo f.position = some (.returned () k) ∧ k.position = f.position ∧
      k.current.own = f.current.own ∧ k.currentEvent = some (.returned e' k) ∧ e.UpToStart e' ∧
      ∃ es', f.Dumps es' ∧ k.Dumps es' := by
  have hkept : R.kept.map R.pointAt = gs.flatMap Group.points := by
    rw [← hpoints, Recording.kept, hdistinct.keptFrom]
    rfl
  obtain ⟨gs', hawaits, -, hevent⟩ := hrun.awaits hflag (h₀.awaits hflag hgrouped hkept) hlast
  obtain ⟨pre, g, rfl, heq, hleaves, hlands⟩ := hevent e (by simp)
  -- The event is that of a complete group.
  obtain ⟨n, hn⟩ : ∃ n, g.vmenter = some n := by
    cases g with
    | head is n => exact ⟨n, rfl⟩
    | whole x is n => exact ⟨n, rfl⟩
    | cut x is =>
      rw [heq.2] at he
      cases he
  have hg := hgrouped.consecutive hn hpoints
  have halone : AttachedAlone R h := hcalls.attached noData_keptByData h₁.attachedAlone
  obtain ⟨k, hadvance, hcached, hawaits', hlands'⟩ :=
    halone.advanceTo hflag hdistinct hg hleaves
  obtain ⟨hpos, hown⟩ := hlands.position hg
  obtain ⟨hpos', hown'⟩ := hlands'.position hg
  have hvalid : k.current_event.is_valid = true := by
    rw [hcached]
    cases g <;> rfl
  have hlast' : ∀ g ∈ gs'.getLast?, g.event.withoutEffect = false := by
    intro g₂ hg₂
    refine hlast g₂ ?_
    rw [List.getLast?_append, List.getLast?_cons, Option.mem_def.mp hg₂]
    rfl
  refine ⟨k, g.event, hpos ▸ hadvance, hpos'.trans hpos.symm, hown'.trans hown.symm, ?_, heq.symm,
    mergeEvents (gs'.map Group.event), ?_, ?_⟩
  · rw [SyncFile.currentEvent, hvalid, hcached]
    rfl
  · exact (Awaits.run hflag gs'.length gs' f [] rfl hawaits .start).2 hlast'
  · exact (Awaits.run hflag gs'.length gs' k [] rfl hawaits' .start).2 hlast'

end

/-- All records of the recording `fourGroups` are kept. -/
theorem fourGroups_distinct : fourGroups.Distinct := by
  intro k h1 hk
  have hkept : fourGroups.kept = [1, 2, 3, 4, 5, 6, 7, 8, 9] := by
    have hpositions := congrArg (List.map Prod.fst) fourGroups_points
    rw [List.map_map] at hpositions
    exact (List.map_id _).symm.trans hpositions
  have hmem : k ∈ fourGroups.kept := by
    have hk9 : k ≤ 9 := hk
    rw [hkept]
    simp only [List.mem_cons, List.not_mem_nil, or_false]
    omega
  have hkeeps := (Recording.mem_keptFrom.mp hmem).2.2
  have hne : ¬ k = 1 := by omega
  simpa [Recording.keeps, hne] using hkeeps

/-- On it, the position after the event that was merged restores that event on a fresh reader. -/
theorem advanceTo_restores_fourGroups : ∃ f₀ f k es e e', Loaded fourGroups none f₀ ∧
    DumpRun (fun _ => True) f₀ (es ++ [e]) f ∧ es.length = 1 ∧
    f₀.advanceTo f.position = some (.returned () k) ∧ k.position = f.position ∧
    k.currentEvent = some (.returned e' k) ∧ e.UpToStart e' := by
  obtain ⟨f₀, h₀⟩ : ∃ f, Loaded fourGroups none f := Recording.ofRecords_loaded
  have hpoints : (List.range' 1 fourGroups.count).map fourGroups.pointAt =
      fourGroupsList.flatMap Group.points := by
    rw [← fourGroups_points, Recording.kept, fourGroups_distinct.keptFrom]
    rfl
  have hlast : ∀ g ∈ fourGroupsList.getLast?, g.event.withoutEffect = false := by
    rintro g hg
    cases hg
    rfl
  have hawaits := h₀.awaits fourGroups_flagged fourGroupsList_grouped fourGroups_points
  obtain ⟨f, hrun⟩ := (Awaits.run fourGroups_flagged 4 fourGroupsList f₀ [] rfl hawaits .start).1
  have hevents : ∃ e₁ e₂, [] ++ (mergeEvents (fourGroupsList.map Group.event)).dropLast =
      [e₁] ++ [e₂] ∧ e₂.is_last_event = false := ⟨_, _, rfl, rfl⟩
  obtain ⟨e₁, e₂, hevents, hnotlast⟩ := hevents
  rw [hevents] at hrun
  obtain ⟨k, e', hadvance, hpos, -, hevent, he, -⟩ := advanceTo_restores fourGroups fourGroupsList f₀ f₀
    f f₀ [e₁] e₂ h₀ h₀ fourGroups_flagged fourGroups_distinct fourGroupsList_grouped hpoints hlast
    hrun hnotlast .start
  exact ⟨f₀, f, k, [e₁], e₂, e', h₀, hrun, rfl, hadvance, hpos, hevent, he⟩

end RvnSyncPoint
