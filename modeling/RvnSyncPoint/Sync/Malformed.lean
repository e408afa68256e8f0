import RvnSyncPoint.Sync.Checkpoint

/-!
# A malformed group

The loop of `bin/dump_sync_events` on a recording that begins with well-formed groups, after which
`fetch_new_event` throws. An event without effect is held back by the call of `current_event` that fetched
it, which looks ahead to the next one, and the exception of the look-ahead ends that call. So the loop
gets the event of the last well-formed group exactly when that event is one to be returned at once
(`gets_iff`).

There may be a data file. Which data a point gets depends on how often the reader went back, so the
points are compared without it (`Tape.scalars`).
-/

namespace RvnSyncPoint

open LittleEndian Loop StreamableFile

/-! ## Points without data -/

/-- The event without its data. -/
def SyncEvent.bare (e : SyncEvent) : SyncEvent := { e with data := [] }

namespace Tape

/-- A point of a tape, without its data and without a left-over vector. -/
def scalarsAt (x : ℕ × SyncPoint) : ℕ × SyncPoint := (x.1, x.2.scalars)

def scalars (T : Tape) : Tape := T.map scalarsAt

end Tape

/-- A group of such points. -/
def Group.scalars : Group → Group
  | head is n => head (Tape.scalars is) (Tape.scalarsAt n)
  | whole x is n => whole (Tape.scalarsAt x) (Tape.scalars is) (Tape.scalarsAt n)
  | cut x is => cut (Tape.scalarsAt x) (Tape.scalars is)

section

variable {R : Recording} {f h k : SyncFile} {e : SyncEvent} {g g₀ : Group} {gs : List Group}
  {n x y : ℕ × SyncPoint} {is S T U V W : Tape} {m : ℕ}

/-- The points that a group of bare points stands for are a group. -/
theorem Tape.exists_group (h : Tape.scalars U = g.points ++ V) :
    ∃ (g' : Group) (U' : Tape), U = g'.points ++ U' ∧ g'.scalars = g ∧ Tape.scalars U' = V := by
  obtain ⟨P, U', rfl, hP, hU'⟩ := List.map_eq_append_iff.mp h
  cases g with
  | head is n =>
    obtain ⟨is', Q, rfl, rfl, hQ⟩ := List.map_eq_append_iff.mp hP
    obtain ⟨n', rfl, rfl⟩ := List.map_eq_singleton_iff.mp hQ
    exact ⟨.head is' n', U', rfl, rfl, hU'⟩
  | whole x is n =>
    obtain ⟨x', Q, rfl, rfl, hQ⟩ := List.map_eq_cons_iff.mp hP
    obtain ⟨is', Q', rfl, rfl, hQ'⟩ := List.map_eq_append_iff.mp hQ
    obtain ⟨n', rfl, rfl⟩ := List.map_eq_singleton_iff.mp hQ'
    exact ⟨.whole x' is' n', U', rfl, rfl, hU'⟩
  | cut x is =>
    obtain ⟨x', is', rfl, rfl, rfl⟩ := List.map_eq_cons_iff.mp hP
    exact ⟨.cut x' is', U', rfl, rfl, hU'⟩

/-- The registers of points are compared without their data and vectors. -/
theorem SyncPoint.isEquivalent_scalars (p q : SyncPoint) :
    p.scalars.isEquivalent q.scalars = p.isEquivalent q := by
  rw [Bool.eq_iff_iff, isEquivalent_iff, isEquivalent_iff]
  rfl

theorem Tape.Interrupts.of_scalars (h : Tape.Interrupts (Tape.scalars is) (some (Tape.scalarsAt n))) :
    is.Interrupts (some n) := by
  match is, h with
  | [], _ => exact trivial
  | [i], ⟨hi, heq⟩ =>
    have hn : n.2.isEquivalent i.2 = true :=
      (SyncPoint.isEquivalent_scalars n.2 i.2).symm.trans (heq (Tape.scalarsAt n) rfl)
    exact ⟨hi, fun m hm => by cases hm; exact hn⟩
  | [i, i'], ⟨hi, hi', hsame, heq⟩ =>
    have hn : n.2.isEquivalent i.2 = true :=
      (SyncPoint.isEquivalent_scalars n.2 i.2).symm.trans (heq (Tape.scalarsAt n) rfl)
    have hi₂ : i'.2.isEquivalent i.2 = true :=
      (SyncPoint.isEquivalent_scalars i'.2 i.2).symm.trans hsame
    exact ⟨hi, hi', hi₂, fun m hm => by cases hm; exact hn⟩

/-- The event of a group without data. An interrupt keeps its vector. -/
theorem Group.event_scalars (his : ∀ i ∈ is, i.2.isInterrupt = true) :
    (Group.whole x is n).scalars.event = (Group.whole x is n).event.bare ∧
      (Group.head is n).scalars.event = (Group.head is n).event.bare := by
  cases is with
  | nil => exact ⟨rfl, rfl⟩
  | cons i is =>
    have hvec : i.2.scalars.interrupt_vector = i.2.interrupt_vector := by
      show (if i.2.isInterrupt then i.2.interrupt_vector else 0) = _
      rw [his i List.mem_cons_self]
      rfl
    constructor
    · show { (Group.whole x (i :: is) n).event.bare with
        interrupt_vector := i.2.scalars.interrupt_vector } = _
      rw [hvec]
      rfl
    · show { (Group.head (i :: is) n).event.bare with
        interrupt_vector := i.2.scalars.interrupt_vector } = _
      rw [hvec]
      rfl

/-- What is fetched from the points of a complete group, whatever data they have and whatever vectors
are left over: its event. -/
theorem Tape.fetchVmexit_scalars (hg : (Group.whole x is n).WellFormed)
    (hsane : (Group.whole x is n).event.checkSanity = .ok ())
    (hU : Tape.scalars U = (Group.whole x is n).points ++ V) :
    ∃ e y U', fetchVmexit U = .complete e y U' ∧ e.bare = (Group.whole x is n).event ∧
      scalarsAt y = n ∧ Tape.scalars U' = V ∧ ∃ P, U = P ++ y :: U' := by
  obtain ⟨g', U', rfl, hg', hU'⟩ := exists_group hU
  cases g' with
  | head is' n' => cases hg'
  | cut x' is' => cases hg'
  | whole x' is' n' =>
    cases hg'
    have his : is'.Interrupts (some n') := hg.2.1.of_scalars
    obtain ⟨hevent, -⟩ := Group.event_scalars (x := x') (n := n') his.all_isInterrupt
    rw [show Group.whole (scalarsAt x') (Tape.scalars is') (scalarsAt n') =
      (Group.whole x' is' n').scalars from rfl, hevent] at hsane ⊢
    exact ⟨_, n', U', fetchVmexit_whole ⟨hg.1, his, hg.2.2⟩ hsane, rfl, rfl, hU', x' :: is', by
      simp [Group.points]⟩

/-- So it is from the first point of a group, at which the reader stands. -/
theorem Tape.fetch_scalars (h : Grouped (g :: gs)) (hcomplete : g.vmenter ≠ none)
    (hT : Tape.scalars (x :: T) = g.points ++ V) :
    ∃ e y U', fetch x T = .complete e y U' ∧ e.bare = g.event ∧
      g.vmenter = some (scalarsAt y) ∧ Tape.scalars U' = V ∧ ∃ P, x :: T = P ++ y :: U' := by
  cases h with
  | follow h =>
    cases h with
    | cut hg => exact absurd rfl hcomplete
    | cons hg hsane hgs =>
      -- The reader is on the VMExit of the group.
      have hx : x.2.isVmexit = true := by
        have hhead : scalarsAt x = _ := (List.cons.inj hT).1
        have hexit := hg.1
        rw [← hhead] at hexit
        exact hexit
      obtain ⟨e, y, U', hfetch, hevent, hy, hrest⟩ := fetchVmexit_scalars hg hsane hT
      refine ⟨e, y, U', ?_, hevent, congrArg some hy.symm, hrest⟩
      rw [← hfetch, fetch, hx]
      rfl
  | head hg hfirst hgs =>
    -- The VMExit is missing, and the reader is on the first point of what there is of the group.
    obtain ⟨g', U', hpoints, hg', hU'⟩ := exists_group hT
    cases g' with
    | whole x' is' n' => cases hg'
    | cut x' is' => cases hg'
    | head is' n' =>
      cases hg'
      have his : is'.Interrupts (some n') := hg.1.of_scalars
      obtain ⟨-, hevent⟩ := Group.event_scalars (x := x) (n := n') his.all_isInterrupt
      have hposition : (Group.head is' n').position = 1 := by
        rw [← hfirst]
        cases is' <;> rfl
      exact ⟨_, n', U', fetch_head ⟨his, hg.2⟩ hposition hpoints, hevent.symm, rfl, hU', is', by
        rw [hpoints]
        simp [Group.points]⟩

/-- A VMExit that another one follows is malformed. -/
theorem Tape.fetch_vmexits (hx : (scalarsAt x).2.isVmexit = true) (hy : (scalarsAt y).2.isVmexit = true) :
    ∃ err, fetch x (y :: U) = .malformed err y U := by
  have hx' : x.2.isVmexit = true := hx
  have hy' : y.2.isVmexit = true := hy
  obtain ⟨hint, henter⟩ : y.2.isInterrupt = false ∧ y.2.isVmenter = false := by
    simpa [SyncPoint.isVmexit] using hy'
  obtain ⟨err, herr⟩ : ∃ err, ((SyncEvent.start x.1 x.2).addData y.2).finish y.2 y.1 = .error err := by
    cases hfin : ((SyncEvent.start x.1 x.2).addData y.2).finish y.2 y.1 with
    | error err => exact ⟨err, rfl⟩
    | ok e =>
      have hv := ((SyncEvent.finish_ok_iff _ y.2 y.1).mp ⟨e, hfin⟩).1
      rw [henter] at hv
      cases hv
  exact ⟨err, by simp [fetch, fetchVmexit, toVmexit, atVmexit, body, vmenter, hx', hint, herr]⟩

/-! ## The tape of a reader with a data file -/

theorem SyncRecord.decode_scalars (r : SyncRecord) : r.decode.scalars = r.decode := by
  unfold SyncPoint.scalars
  rw [r.decode_own]
  unfold decode point SyncPoint.storeType
  split_ifs <;> rfl

/-- The tape from a point that stands at `p` begins with the kept records, as far as every interrupt is
flagged. The induction is on the records that remain. -/
theorem tapeOf_scalars (hflag : ∀ j, 1 ≤ j → j ≤ m → (R.record j).Flagged) (c₀ : ℕ) :
    ∀ (p : ℕ) (c : SyncPoint) (d : StreamableFile) (T W : Tape), R.count - p = c₀ → R.Stands p c →
      (R.keptFrom p).map R.pointAt = T ++ W → (∀ x ∈ T, x.1 ≤ m) →
      ∃ V, Tape.scalars (tapeOf p c d (R.recordsFrom p)) = T ++ V := by
  induction c₀ with
  | zero =>
    intro p c d T W hn hc hT hm
    have hkept : R.keptFrom p = [] := by rw [Recording.keptFrom, hn]; rfl
    rw [hkept] at hT
    obtain ⟨rfl, -⟩ := List.append_eq_nil_iff.mp hT.symm
    exact ⟨_, rfl⟩
  | succ c₀ ih =>
    intro p c d T W hn hc hT hm
    cases T with
    | nil => exact ⟨_, rfl⟩
    | cons x T =>
      have hlt : p < R.count := by omega
      -- The first of the kept records is at least the next one.
      have hx : p + 1 ≤ x.1 := by
        obtain ⟨j, hj, rfl⟩ := List.mem_map.mp (hT ▸ List.mem_cons_self : x ∈ (R.keptFrom p).map R.pointAt)
        exact (Recording.mem_keptFrom.mp hj).1
      have hr := hflag (p + 1) (by omega) (hx.trans (hm x (by simp)))
      have hkeep := hc.keeps hlt
      rw [R.keptFrom_lt hlt] at hT
      rw [R.recordsFrom_lt hlt, tapeOf]
      dsimp only
      generalize (dataAt (R.record (p + 1)).data_offset d).1 = data
      rw [← hr.operatorEq c data] at hkeep
      cases heq : c.operatorEq ((R.record (p + 1)).point c data) with
      | true =>
        rw [hkeep, heq, if_neg (by simp)] at hT
        rw [if_pos rfl]
        refine ih (p + 1) c _ (x :: T) W (by omega) (.inr ⟨by omega, ?_⟩) hT hm
        rw [← hr.operatorEq c data, heq]
      | false =>
        rw [hkeep, heq, if_pos (by simp), List.map_cons, List.cons_append] at hT
        obtain ⟨rfl, hrest⟩ := List.cons.inj hT
        rw [if_neg (by simp)]
        have hstands : R.Stands (p + 1) ((R.record (p + 1)).point c data) :=
          Recording.IsPoint.stands ⟨by omega, hlt, c, data, rfl⟩ hr
        obtain ⟨V, hV⟩ := ih (p + 1) _ _ T W (by omega) hstands hrest fun y hy => hm y (by simp [hy])
        refine ⟨V, ?_⟩
        rw [Tape.scalars, List.map_cons, List.cons_append]
        refine congrArg₂ List.cons ?_ hV
        rw [Tape.scalarsAt, Recording.pointAt, hr.scalars, SyncRecord.decode_scalars]

/-! ## One call of `current_event` -/

/-- The reader has the groups `gs` to come, complete and up to the record `m`. -/
structure Expects (R : Recording) (m : ℕ) (gs : List Group) (f : SyncFile) : Prop where
  reading : Reading R f
  grouped : Grouped gs
  complete : ∀ g ∈ gs, g.vmenter ≠ none
  le : ∀ x ∈ gs.flatMap Group.points, x.1 ≤ m
  kept : ∃ p W, (R.keptFrom p).map R.pointAt = gs.flatMap Group.points ++ W
  tape : ∃ V, Tape.scalars (R.tape f) = gs.flatMap Group.points ++ V

/-- From every reader on the record `m`, `next()` comes to a point from which `fetch_new_event` throws. -/
def Recording.ThrowsAfter (R : Recording) (m : ℕ) : Prop :=
  ∀ f f', Reading R f → f.position = m → R.IsPoint m f.current → f.next = some f' →
    f'.current.valid = true ∧ ∃ err g, f'.fetchNewEvent = some (.thrown err g)

/-- So it is where the record is followed by two VMExits. -/
theorem Recording.throwsAfter_of_vmexits (hflag : R.Flagged)
    (hpoints : (R.keptFrom m).map R.pointAt = x :: y :: W) (hx : x.2.isVmexit = true)
    (hy : y.2.isVmexit = true) : R.ThrowsAfter m := by
  intro f f' hread hpos hpoint hf'
  have hstands := hpoint.stands (hflag m hpoint.1 hpoint.2.1)
  rw [← hpos] at hstands hpoints
  -- Whatever point the reader came from, its tape begins with the two VMExits.
  obtain ⟨V, hV⟩ := tapeOf_scalars (T := x :: y :: W) (W := []) (fun j => hflag j) _ f.position f.current
    f.data_file rfl hstands (by rw [hpoints, List.append_nil]) (by
      rw [← hpoints]
      intro z hz
      obtain ⟨j, hj, rfl⟩ := List.mem_map.mp hz
      exact (Recording.mem_keptFrom.mp hj).2.1)
  obtain ⟨x', T', htape, rfl, hT'⟩ := List.map_eq_cons_iff.mp hV
  obtain ⟨y', U, rfl, rfl, -⟩ := List.map_eq_cons_iff.mp hT'
  obtain ⟨k, hk, hc, ⟨z, T, hz, hafter, -, hzpoint⟩ | ⟨hnil, -⟩⟩ := hread.next
  · rw [hf'] at hk
    cases hk
    rw [show R.tape f = x' :: y' :: U from htape] at hz
    obtain ⟨rfl, rfl⟩ := List.cons.inj hz
    obtain ⟨o, ho, hgives⟩ := fetchNewEvent_spec hafter hc
    obtain ⟨err, herr⟩ := Tape.fetch_vmexits (U := U) hx hy
    rw [herr] at hgives
    refine ⟨by rw [hafter.2.2.1]; exact hzpoint.valid, ?_⟩
    cases hgives with
    | malformed hafter' hsame => exact ⟨_, _, ho⟩
  · rw [show R.tape f = x' :: y' :: U from htape] at hnil
    cases hnil

/-- So does the look-ahead from that record, which skips its way to the same VMExit. -/
theorem Recording.ThrowsAfter.lookAhead (h : R.ThrowsAfter k.position) (hread : Reading R k)
    (hc : k.current_event.is_valid = false) (hpoint : R.IsPoint k.position k.current)
    (hx : k.current.isVmexit = false) (h2 : 2 ≤ k.position) :
    ∃ err g, k.fetchNewEvent = some (.thrown err g) := by
  obtain ⟨k', hk', hc', hnext⟩ := hread.next
  obtain ⟨hvalid, err, g, hthrown⟩ := h k k' hread rfl hpoint hk'
  rcases hnext with ⟨x, T, htape, hafter, hlt, -⟩ | ⟨-, hend⟩
  · obtain ⟨o', ho', hgives'⟩ := fetchNewEvent_spec hafter hc'
    have hfetch : Tape.fetch x T = Tape.fetchVmexit (x :: T) := by
      have h1 : x.1 ≠ 1 := by omega
      simp [Tape.fetch, h1]
    rw [hthrown] at ho'
    cases ho'
    obtain ⟨o, ho, hgives⟩ := lookAhead_spec hread.after hc hx h2
    rw [htape, ← hfetch] at hgives
    generalize Tape.fetch x T = z at hgives hgives'
    cases hgives' with
    | malformed hafter' hsame =>
      cases hgives with
      | malformed hafter hsame => exact ⟨_, _, ho⟩
  · rw [hend.1.not_valid] at hvalid
    cases hvalid

/-- The loop of `current_event` returns the event of a group, the last of those that it merged, and leaves
the groups that follow. -/
def ReturnsGroup (R : Recording) (m : ℕ) (gs : List Group) (o : Option (Outcome SyncFile SyncEvent)) :
    Prop :=
  ∃ pre g gs' e k, gs = pre ++ g :: gs' ∧ o = some (.returned e k) ∧ g.event.UpToStart e.bare ∧
    Expects R m gs' k ∧ (gs' = [] → g.event.withoutEffect = false)

/-- The groups after the first one begin with their VMExits. -/
theorem Expects.tail (h : Expects R m (g :: gs) f) : Follow gs :=
  (show Grouped ([] ++ g :: gs) from h.grouped).of_append.1

/-- The reader on the last point of the first group has the others to come. -/
theorem Expects.rest (h : Expects R m (g :: gs) f) (hafter : R.After k (y :: U))
    (hU : Tape.scalars U = gs.flatMap Group.points ++ V) : Expects R m gs k := by
  obtain ⟨p, W, hW⟩ := h.kept
  rw [List.flatMap_cons, List.append_assoc] at hW
  obtain ⟨q, hq, -⟩ := Recording.keptFrom_append hW.symm
  refine ⟨hafter.1, .follow h.tail, fun g' hg' => h.complete g' (by simp [hg']), fun z hz => h.le z ?_,
    ⟨q, W, hq.symm⟩, V, by rw [hafter.2.2.2]; exact hU⟩
  rw [List.flatMap_cons]
  exact List.mem_append_right _ hz

/-- The reader that went back to the record before the group `g`. -/
theorem back_expects (hflag : ∀ j, 1 ≤ j → j ≤ m → (R.record j).Flagged) (hread : Reading R k)
    (hpos : k.position + 1 = g.position) (hpoint : R.IsPoint k.position k.current)
    (hgs : Follow (g :: gs)) (hcomplete : ∀ g' ∈ g :: gs, g'.vmenter ≠ none)
    (hle : ∀ x ∈ (g :: gs).flatMap Group.points, x.1 ≤ m)
    (hkept : ∃ p W, (R.keptFrom p).map R.pointAt = (g :: gs).flatMap Group.points ++ W) :
    Expects R m (g :: gs) k := by
  obtain ⟨p, W, hW⟩ := hkept
  obtain ⟨x, S, hpoints, hx⟩ := g.points_cons
  obtain ⟨q, hq, hfirst⟩ := Recording.keptFrom_append (T := []) (U := (g :: gs).flatMap Group.points ++ W)
    hW.symm
  have hxq : x.1 = q + 1 := hfirst x (by simp [hpoints])
  have hqpos : q = k.position := by omega
  have hm : x.1 ≤ m := hle x (by simp [hpoints])
  have hstands := hpoint.stands (hflag k.position hpoint.1 (by omega))
  rw [hqpos] at hq
  obtain ⟨V, hV⟩ := tapeOf_scalars hflag _ k.position k.current k.data_file _ W rfl hstands hq.symm hle
  exact ⟨hread, .follow hgs, hcomplete, hle, ⟨p, W, hW⟩, V, hV⟩

theorem Group.event_position (g : Group) : g.event.position = g.position := by
  cases g <;> rfl

/-- The loop of `current_event` is on the event `e`, which ends with the group `g`, and the reader is on
its VMEnter, with the groups `gs` to come. -/
structure Merging (R : Recording) (m : ℕ) (g : Group) (gs : List Group) (e : SyncEvent) (h : SyncFile) :
    Prop extends Expects R m gs h where
  follow : Follow gs
  no_event : h.current_event.is_valid = false
  point : R.IsPoint h.position h.current
  vmexit : h.current.isVmexit = false
  event : g.event.UpToStart e.bare
  after_first : e.withoutEffect = true → 2 ≤ h.position
  vmenter : ∃ n, g.vmenter = some n ∧ n.1 = h.position

/-- An event with an effect is returned. -/
theorem Merging.stay (h : Merging R m g gs e k) (heffect : e.withoutEffect = false) :
    ReturnsGroup R m (g :: gs) (loop SyncFile.mergePass (e, k)) := by
  refine ⟨[], g, gs, e, k, rfl, mergePass_stay heffect, h.event, h.toExpects, fun _ => ?_⟩
  rw [← h.event.withoutEffect]
  exact heffect

/-- A group that is complete and begins with its VMExit. -/
theorem Follow.whole (h : Follow (g :: gs)) (hcomplete : g.vmenter ≠ none) :
    ∃ x is n, g = .whole x is n ∧ g.WellFormed ∧ g.event.checkSanity = .ok () := by
  cases h with
  | cut hg => exact absurd rfl hcomplete
  | cons hg hsane hgs => exact ⟨_, _, _, rfl, hg, hsane⟩

/-- The first and the last point of the next event are records of the file after the current one. -/
theorem Tape.fetchVmexit_tape (h : Tape.fetchVmexit (R.tape k) = .complete e y U) :
    (k.position < e.position ∧ e.position ≤ R.count) ∧ k.position < y.1 ∧ R.IsPoint y.1 y.2 := by
  obtain ⟨pre, v, mid, hT, -, -, -, hends⟩ := fetchVmexit_complete h
  obtain ⟨hlt, hv⟩ : k.position < v.1 ∧ R.IsPoint v.1 v.2 := R.mem_tape (by simp [hT])
  rw [show e.position = v.1 from hends.position]
  exact ⟨⟨hlt, hv.2.1⟩, R.mem_tape (by simp [hT])⟩

/-- The look-ahead to the next group, which is merged or gone back from. -/
theorem Merging.lookAhead (hflag : ∀ j, 1 ≤ j → j ≤ m → (R.record j).Flagged) {g₂ : Group}
    (h : Merging R m g (g₂ :: gs) e k) (heffect : e.withoutEffect = true) :
    ReturnsGroup R m (g :: g₂ :: gs) (loop SyncFile.mergePass (e, k)) ∨
      ∃ e' k', Merging R m g₂ gs e' k' ∧
        loop SyncFile.mergePass (e, k) = loop SyncFile.mergePass (e', k') := by
  have h2 := h.after_first heffect
  obtain ⟨V, hV⟩ := h.tape
  have hfollow := h.follow
  rw [List.flatMap_cons, List.append_assoc] at hV
  have hgs := h.tail
  obtain ⟨x₂, is₂, n₂, rfl, hg, hsane⟩ := hfollow.whole (h.complete _ List.mem_cons_self)
  obtain ⟨e₂, y₂, U₂, hfetch, hevent, rfl, hU₂, -⟩ := Tape.fetchVmexit_scalars hg hsane hV
  obtain ⟨o, ho, hgives⟩ := lookAhead_spec h.reading.after h.no_event h.vmexit h2
  rw [hfetch] at hgives
  have hposition : e₂.position = x₂.1 := congrArg SyncEvent.position hevent
  obtain ⟨⟨hltx, hlex⟩, hlt, hpoint⟩ := Tape.fetchVmexit_tape hfetch
  cases hgives with
  | complete hafter hsame =>
    rename_i k₂
    have hcache : k₂.current_event.is_valid = false := by rw [hsame.1]; exact h.no_event
    cases hm : e.mergesWith e₂ with
    | true =>
      -- The loop goes on with the next event, and is on its VMEnter.
      have hexpects : Expects R m gs k₂ := h.toExpects.rest hafter hU₂
      obtain ⟨-, hpos, hcur, -⟩ := hafter
      refine .inr ⟨e.merge e₂, k₂, ⟨hexpects, hgs, hcache, ?_, ?_, ?_, ?_, ?_⟩,
        mergePass_merge heffect ho hm⟩
      · rw [hpos, hcur]
        exact hpoint
      · rw [hcur]
        exact Tape.isVmexit_of_isVmenter hg.2.2
      · have hmerge : e.mergesWith e₂.bare = true := hm
        rw [hevent] at hmerge
        have hstart := SyncEvent.UpToStart.merge heffect hmerge
        rw [← hevent] at hstart ⊢
        exact hstart
      · intro _
        omega
      · exact ⟨_, rfl, hpos.symm⟩
    | false =>
      -- The reader goes back, and finds the next group again.
      obtain ⟨k₃, hk₃, hback⟩ := seek_back (e := e) hafter.attached hcache
        (show 2 ≤ e₂.position by omega) (by omega)
      cases hback with
      | back hread hpos hpoint' hcur hev =>
        refine .inl ⟨[], g, _, e, k₃, rfl, mergePass_seek heffect ho hm hk₃, h.event, ?_, by simp⟩
        exact back_expects hflag hread (hpos.trans hposition) hpoint' hfollow h.complete h.le
          h.kept

/-- The loop returns the event of a group, or it gets as far as the last one, which has no effect, and
throws. The induction is on the groups to come. -/
theorem Merging.merge (hflag : ∀ j, 1 ≤ j → j ≤ m → (R.record j).Flagged) (hthrows : R.ThrowsAfter m)
    (hm : ∀ n ∈ g₀.vmenter, n.1 = m) (gs : List Group) :
    ∀ (g : Group) (e : SyncEvent) (k : SyncFile), Merging R m g gs e k →
      (g :: gs).getLast? = some g₀ →
      ReturnsGroup R m (g :: gs) (loop SyncFile.mergePass (e, k)) ∨
        g₀.event.withoutEffect = true ∧
          ∃ err k', loop SyncFile.mergePass (e, k) = some (.thrown err k') := by
  induction gs with
  | nil =>
    intro g e k h hlast
    cases heffect : e.withoutEffect with
    | false => exact .inl (h.stay heffect)
    | true =>
      -- The look-ahead meets the malformed group.
      obtain rfl : g = g₀ := Option.some.inj hlast
      obtain ⟨n, hn, hpos⟩ := h.vmenter
      have hmk : m = k.position := (hm n hn).symm.trans hpos
      rw [hmk] at hthrows
      obtain ⟨err, k', hk'⟩ :=
        hthrows.lookAhead h.reading h.no_event h.point h.vmexit (h.after_first heffect)
      refine .inr ⟨?_, err, k', loop_leave (by simp [SyncFile.mergePass, heffect, hk'])⟩
      rw [← h.event.withoutEffect]
      exact heffect
  | cons g₂ gs ih =>
    intro g e k h hlast
    cases heffect : e.withoutEffect with
    | false => exact .inl (h.stay heffect)
    | true =>
      rcases h.lookAhead hflag heffect with hback | ⟨e', k', hmerging, hloop⟩
      · exact .inl hback
      · rw [hloop]
        rw [List.getLast?_cons_cons] at hlast
        rcases ih g₂ e' k' hmerging hlast with ⟨pre, g', gs', e'', k'', hsplit, hret⟩ | hthrown
        · exact .inl ⟨g :: pre, g', gs', e'', k'', by rw [hsplit]; rfl, hret⟩
        · exact .inr hthrown

/-! ## One pass of the loop -/

theorem Grouped.isVmenter (h : Grouped (g :: gs)) : ∀ n ∈ g.vmenter, n.2.isVmenter = true := by
  intro n hn
  cases h with
  | follow h =>
    cases h with
    | cut hg => cases hn
    | cons hg hsane hgs =>
      cases hn
      exact hg.2.2
  | head hg hfirst hgs =>
    cases hn
    exact hg.2

theorem Expects.keep (e : SyncEvent) (h : Expects R m gs k) :
    Expects R m gs { k with current_event := e } :=
  ⟨h.reading.keep e, h.grouped, h.complete, h.le, h.kept, h.tape⟩

theorem ReturnsGroup.keep {o : Option (Outcome SyncFile SyncEvent)} (h : ReturnsGroup R m gs o) :
    ReturnsGroup R m gs (o.map SyncFile.keep) := by
  obtain ⟨pre, g, gs', e, k, hsplit, rfl, hevent, hexpects, hlast⟩ := h
  exact ⟨pre, g, gs', e, _, hsplit, rfl, hevent, hexpects.keep e, hlast⟩

/-- The first fetch of a call of `current_event`. -/
theorem Expects.fetch (h : Expects R m (g :: gs) f) (hafter : R.After k (x :: T))
    (hc : k.current_event.is_valid = false) (hx : R.IsPoint x.1 x.2) (htape : R.tape f = x :: T) :
    ∃ e k', k.fetchNewEvent = some (.returned e k') ∧ Merging R m g gs e k' := by
  obtain ⟨V, hV⟩ := h.tape
  rw [htape, List.flatMap_cons, List.append_assoc] at hV
  have hgs := h.tail
  obtain ⟨e, y, U, hfetch, hevent, hn, hU, P, hP⟩ :=
    Tape.fetch_scalars h.grouped (h.complete g (by simp)) hV
  obtain ⟨o, ho, hgives⟩ := fetchNewEvent_spec hafter hc
  rw [hfetch] at hgives
  -- The event is at its first point, and ends on it or on a later one.
  have hposition : e.position = x.1 := by
    obtain ⟨z, S, hz, hzpos⟩ := g.points_cons
    rw [hz] at hV
    have hhead : Tape.scalarsAt x = z := (List.cons.inj hV).1
    calc e.position = e.bare.position := rfl
      _ = g.event.position := congrArg SyncEvent.position hevent
      _ = z.1 := g.event_position.trans hzpos.symm
      _ = x.1 := by rw [← hhead]; rfl
  obtain ⟨hle, hpoint⟩ : x.1 ≤ y.1 ∧ R.IsPoint y.1 y.2 := by
    have hy : y ∈ x :: T := by simp [hP]
    rcases List.mem_cons.mp hy with rfl | hy
    · exact ⟨le_rfl, hx⟩
    · exact (hafter.mem_tape hy).imp_left le_of_lt
  cases hgives with
  | complete hafter' hsame =>
    rename_i k'
    have hexpects : Expects R m gs k' := h.rest hafter' hU
    obtain ⟨-, hpos, hcur, -⟩ := hafter'
    refine ⟨e, k', ho, hexpects, hgs, by rw [hsame.1]; exact hc, ?_, ?_, ?_, fun heffect => ?_,
      _, hn, hpos.symm⟩
    · rw [hpos, hcur]
      exact hpoint
    · rw [hcur]
      exact Tape.isVmexit_of_isVmenter (h.grouped.isVmenter (Tape.scalarsAt y) hn)
    · rw [hevent]
      exact .refl _
    · obtain ⟨hne, -⟩ := (SyncEvent.withoutEffect_iff e).mp heffect
      have h1 := hx.1
      omega

/-- One pass of the loop of `dump_sync_events` from a reader that has groups to come. -/
theorem Expects.step (hflag : ∀ j, 1 ≤ j → j ≤ m → (R.record j).Flagged) (hthrows : R.ThrowsAfter m)
    (hm : ∀ n ∈ g₀.vmenter, n.1 = m) (h : Expects R m (g :: gs) f)
    (hlast : (g :: gs).getLast? = some g₀) :
    ∃ k, f.next = some k ∧ k.current.valid = true ∧ (ReturnsGroup R m (g :: gs) k.currentEvent ∨
      g₀.event.withoutEffect = true ∧ ∃ err k', k.currentEvent = some (.thrown err k')) := by
  obtain ⟨k, hk, hc, ⟨x, T, htape, hafter, -, hx⟩ | ⟨hnil, -⟩⟩ := h.reading.next
  · obtain ⟨e, k', hfetch, hmerging⟩ := h.fetch hafter hc hx htape
    refine ⟨k, hk, by rw [hafter.2.2.1]; exact hx.valid, ?_⟩
    rw [currentEvent_of_fetch hafter.1.eof hc hfetch]
    rcases hmerging.merge hflag hthrows hm gs g e k' hlast with hret | ⟨hno, err, k'', hthrown⟩
    · exact .inl hret.keep
    · refine .inr ⟨hno, err, k'', ?_⟩
      rw [hthrown]
      rfl
  · obtain ⟨V, hV⟩ := h.tape
    obtain ⟨z, S, hz, -⟩ := g.points_cons
    rw [hnil, List.flatMap_cons, hz] at hV
    cases hV

/-! ## The loop -/

/-- The loop of `dump_sync_events` gets the event of the group `g`, alone or as the last of a merged run. -/
def SyncFile.Gets (f : SyncFile) (g : Group) : Prop :=
  ∃ es k e, DumpRun (fun _ => True) f (es ++ [e]) k ∧ g.event.UpToStart e.bare

theorem SyncEvent.UpToStart.position (h : g.event.UpToStart e.bare) : e.position = g.position := by
  obtain ⟨-, heq⟩ := h
  calc e.position = e.bare.position := rfl
    _ = g.event.position := by rw [heq]
    _ = g.position := g.event_position

/-- The loop goes on to the last of the groups, if its event has an effect. The induction is on their
number. -/
theorem Expects.gets (hflag : ∀ j, 1 ≤ j → j ≤ m → (R.record j).Flagged) (hthrows : R.ThrowsAfter m)
    (hm : ∀ n ∈ g.vmenter, n.1 = m) (heffect : g.event.withoutEffect = false) {f₀ : SyncFile} (c : ℕ) :
    ∀ (gs : List Group) (f : SyncFile) (es : List SyncEvent), gs.length = c → gs.getLast? = some g →
      Expects R m gs f → DumpRun (fun _ => True) f₀ es f → f₀.Gets g := by
  induction c using Nat.strongRecOn with
  | ind c ih =>
    intro gs f es hc hlast h hrun
    cases gs with
    | nil => cases hlast
    | cons g₁ gs =>
      obtain ⟨k, hk, hvalid, hret⟩ := h.step hflag hthrows hm hlast
      rcases hret with ⟨pre, g', gs', e, k', hsplit, hevent, he, hexpects, -⟩ | ⟨hno, -⟩
      · have hrun' := hrun.step hk hvalid trivial hevent
        rw [hsplit] at hlast hc
        cases gs' with
        | nil =>
          -- The event of the last group.
          rw [List.getLast?_concat] at hlast
          cases hlast
          exact ⟨es, k', e, hrun', he⟩
        | cons g₂ gs' =>
          have hlast' : (g₂ :: gs').getLast? = some g := by
            rw [← hlast, List.getLast?_append_of_ne_nil _ (by simp), List.getLast?_cons_cons]
          refine ih (g₂ :: gs').length ?_ (g₂ :: gs') k' _ rfl hlast' hexpects hrun'
          simp only [← hc, List.length_append, List.length_cons]
          omega
      · rw [heffect] at hno
        cases hno

/-- Points of kept records are in the order of the file. -/
theorem Recording.pairwise_of_kept {p : ℕ} (h : (R.keptFrom p).map R.pointAt = T ++ W) :
    T.Pairwise fun x y => x.1 < y.1 := by
  have hsorted : (T ++ W).Pairwise fun x y => x.1 < y.1 := by
    rw [← h, List.pairwise_map]
    exact R.keptFrom_sorted p
  exact (List.pairwise_append.mp hsorted).1

/-- The groups are in the order of the file. -/
theorem Expects.position_lt {pre : List Group} (h : Expects R m (pre ++ gs) f) :
    ∀ g₁ ∈ pre, ∀ g₂ ∈ gs, g₁.position < g₂.position := by
  intro g₁ hg₁ g₂ hg₂
  obtain ⟨p, W, hW⟩ := h.kept
  have hsorted := Recording.pairwise_of_kept hW
  rw [List.flatMap_append] at hsorted
  obtain ⟨-, -, hlt⟩ := List.pairwise_append.mp hsorted
  obtain ⟨x₁, T₁, hx₁, hpos₁⟩ := g₁.points_cons
  obtain ⟨x₂, T₂, hx₂, hpos₂⟩ := g₂.points_cons
  rw [← hpos₁, ← hpos₂]
  refine hlt x₁ (List.mem_flatMap.mpr ⟨g₁, hg₁, ?_⟩) x₂ (List.mem_flatMap.mpr ⟨g₂, hg₂, ?_⟩)
  · simp [hx₁]
  · simp [hx₂]

/-- If the event of the last group has no effect, every run of the loop ends before it. -/
theorem DumpRun.before (hflag : ∀ j, 1 ≤ j → j ≤ m → (R.record j).Flagged) (hthrows : R.ThrowsAfter m)
    (hm : ∀ n ∈ g.vmenter, n.1 = m) (heffect : g.event.withoutEffect = true) {f₀ : SyncFile}
    {es : List SyncEvent} (hrun : DumpRun (fun _ => True) f₀ es f) (h₀ : Expects R m (gs ++ [g]) f₀) :
    (∃ gs', Expects R m (gs' ++ [g]) f) ∧ ∀ e ∈ es, e.position < g.position := by
  -- Each event takes groups from the front, and never the last one.
  induction hrun with
  | start => exact ⟨⟨gs, h₀⟩, by simp⟩
  | step hrun hnext hvalid hok hevent ih =>
    obtain ⟨⟨gs', h⟩, hlt⟩ := ih
    have hlast : (gs' ++ [g]).getLast? = some g := List.getLast?_concat
    obtain ⟨g₁, rest, hcons⟩ : ∃ g₁ rest, gs' ++ [g] = g₁ :: rest :=
      List.exists_cons_of_ne_nil (by simp)
    rw [hcons] at h hlast
    obtain ⟨k, hk, -, hret⟩ := h.step hflag hthrows hm hlast
    rw [hnext] at hk
    cases hk
    rcases hret with ⟨pre, g', gs₂, e, k', hsplit, hevent', he, hexpects, hnil⟩ | ⟨-, err, k', hthrown⟩
    · rw [hevent] at hevent'
      cases hevent'
      rcases List.eq_nil_or_concat gs₂ with rfl | ⟨gs₃, g₃, rfl⟩
      · -- The event would be that of the last group, which has no effect.
        rw [hsplit, List.getLast?_concat] at hlast
        cases hlast
        rw [hnil rfl] at heffect
        cases heffect
      · have hall : g₁ :: rest = (pre ++ g' :: gs₃) ++ [g₃] := by simp [hsplit]
        rw [hall] at h hlast
        rw [List.getLast?_concat] at hlast
        cases hlast
        rw [List.concat_eq_append] at hexpects
        refine ⟨⟨gs₃, hexpects⟩, fun e' he' => ?_⟩
        rcases List.mem_append.mp he' with he' | he'
        · exact hlt e' he'
        · obtain rfl := List.mem_singleton.mp he'
          rw [he.position]
          exact h.position_lt g' (by simp) _ (by simp)
    · rw [hevent] at hthrown
      cases hthrown

/-! ## The last well-formed event -/

/-- The recording begins with the groups `gs`, which are complete and end with the record `m`. What
follows them is any. -/
structure Recording.Opens (R : Recording) (gs : List Group) (m : ℕ) : Prop where
  grouped : Grouped gs
  complete : ∀ g ∈ gs, g.vmenter ≠ none
  points : ∃ W, R.kept.map R.pointAt = gs.flatMap Group.points ++ W
  /-- Every interrupt of the groups is flagged as one. -/
  flagged : ∀ j, 1 ≤ j → j ≤ m → (R.record j).Flagged

/-- The event of the group is one that `current_event` does not look past: it starts at the first record,
has an interrupt, or changes a register that `are_values_equivalent` compares. -/
def Group.HasEffect : Group → Prop
  | head _ _ => True
  | whole x is n => x.1 = 1 ∨ is ≠ [] ∨ x.2.context.areValuesEquivalent n.2.context = false
  | cut x is => x.1 = 1 ∨ is ≠ [] ∨ x.2.context.areValuesEquivalent {} = false

/-- A group without its VMExit begins with the first record. -/
theorem Grouped.head_position (hgs : Grouped gs) (hg : Group.head is n ∈ gs) :
    (Group.head is n).position = 1 := by
  have hfollow : ∀ {gs : List Group}, Follow gs → Group.head is n ∉ gs := by
    intro gs hgs
    induction hgs with
    | nil => simp
    | cut hg => simp
    | cons hg hsane hgs ih => simpa using ih
  cases hgs with
  | follow hgs => exact absurd hg (hfollow hgs)
  | head _ hfirst hgs =>
    rcases List.mem_cons.mp hg with heq | hg
    · rw [heq]
      exact hfirst
    · exact absurd hg (hfollow hgs)

/-- It is the test of `current_event` on the group's event. -/
theorem Group.hasEffect_iff (hgs : Grouped gs) (hg : g ∈ gs) :
    g.HasEffect ↔ g.event.withoutEffect = false := by
  cases g with
  | head is n =>
    have hposition : (Group.head is n).event.position = 1 := hgs.head_position hg
    simp [HasEffect, SyncEvent.withoutEffect, hposition]
  | whole x is n =>
    by_cases h1 : x.1 = 1 <;> cases is <;> simp [HasEffect, SyncEvent.withoutEffect, event, h1]
  | cut x is =>
    by_cases h1 : x.1 = 1 <;> cases is <;> simp [HasEffect, SyncEvent.withoutEffect, event, h1]

/-- A freshly loaded reader has the groups to come. -/
theorem Loaded.expects {data : Option (List UInt8)} {f₀ : SyncFile} (h₀ : Loaded R data f₀)
    (hopens : R.Opens (gs ++ [g]) n.1) (hn : g.vmenter = some n) : Expects R n.1 (gs ++ [g]) f₀ := by
  obtain ⟨hpos, hcur, -, -⟩ := h₀.fields
  obtain ⟨W, hW⟩ := hopens.points
  -- The last point of the groups is the VMEnter of the last one.
  have hle : ∀ x ∈ (gs ++ [g]).flatMap Group.points, x.1 ≤ n.1 := by
    have hsorted := Recording.pairwise_of_kept hW
    obtain ⟨T, hT⟩ := Group.points_vmenter hn
    rw [List.flatMap_append, List.flatMap_singleton, hT, ← List.append_assoc] at hsorted ⊢
    obtain ⟨-, -, hlt⟩ := List.pairwise_append.mp hsorted
    intro x hx
    rcases List.mem_append.mp hx with hx | hx
    · exact (hlt x hx n (by simp)).le
    · rw [List.mem_singleton.mp hx]
  obtain ⟨V, hV⟩ := tapeOf_scalars hopens.flagged _ f₀.position f₀.current f₀.data_file _ W rfl
    (.inl ⟨hpos, hcur⟩) (by rw [hpos]; exact hW) hle
  exact ⟨h₀.reading, hopens.grouped, hopens.complete, hle, ⟨0, W, hW⟩, V, hV⟩

/-- The loop gets the event of the last group exactly when it has an effect. -/
theorem Loaded.gets {data : Option (List UInt8)} {f₀ : SyncFile} (h₀ : Loaded R data f₀)
    (hopens : R.Opens (gs ++ [g]) n.1) (hn : g.vmenter = some n) (hthrows : R.ThrowsAfter n.1) :
    f₀.Gets g ↔ g.event.withoutEffect = false := by
  have hexpects := h₀.expects hopens hn
  have hm : ∀ n' ∈ g.vmenter, n'.1 = n.1 := by
    intro n' hn'
    rw [hn] at hn'
    cases hn'
    rfl
  constructor
  · rintro ⟨es, k, e, hrun, he⟩
    by_contra heffect
    have hlt := (hrun.before hopens.flagged hthrows hm (by simpa using heffect) hexpects).2 e (by simp)
    rw [he.position] at hlt
    exact absurd hlt (lt_irrefl _)
  · intro heffect
    exact hexpects.gets hopens.flagged hthrows hm heffect _ _ f₀ [] rfl List.getLast?_concat .start

/-- On a recording that begins with well-formed groups, with or without a data file, where
`fetch_new_event` throws after the last of them: the loop of `dump_sync_events` gets the event of the last
group exactly when it is one that `current_event` does not look past. -/
theorem gets_iff (R : Recording) (data : Option (List UInt8)) (f₀ : SyncFile) (gs : List Group)
    (g : Group) (n : ℕ × SyncPoint) (h₀ : Loaded R data f₀) (hopens : R.Opens (gs ++ [g]) n.1)
    (hn : g.vmenter = some n) (hthrows : R.ThrowsAfter n.1) : f₀.Gets g ↔ g.HasEffect := by
  rw [h₀.gets hopens hn hthrows, Group.hasEffect_iff hopens.grouped (by simp)]

end

/-! ## Two VMExits in a row -/

/-- A recording of two well-formed events that ends in two VMExits. The second event may change RAX. -/
def twoVmexits (changes : Bool) : Recording :=
  .ofRecords [.simple 0xff 1 7 5, .simple 0 2 7 5, .simple 0xff 3 (if changes then 8 else 7) 5,
    .simple 0 4 9 5, .simple 0 5 9 5] (by simp [SyncRecord.simple]) (by simp)

/-- Its second event. -/
def secondGroup (changes : Bool) : Group :=
  .whole (2, .simple 0 2 7 5) [] (3, .simple 0xff 3 (if changes then 8 else 7) 5)

section

variable {changes : Bool}

theorem twoVmexits_flagged : (twoVmexits changes).Flagged := by
  cases changes <;> exact Recording.ofRecords_flagged (by decide)

theorem twoVmexits_points (p : ℕ) :
    ((twoVmexits changes).keptFrom p).map (twoVmexits changes).pointAt =
      [(1, .simple 0xff 1 7 5), (2, .simple 0 2 7 5),
        (3, .simple 0xff 3 (if changes then 8 else 7) 5), (4, .simple 0 4 9 5),
        (5, .simple 0 5 9 5)].filter (p < ·.1) := by
  cases changes <;> exact Recording.ofRecords_points twoVmexits_flagged p

theorem twoVmexits_opens : (twoVmexits changes).Opens
    ([.head [] (1, .simple 0xff 1 7 5)] ++ [secondGroup changes]) 3 where
  grouped := by
    refine .head ⟨trivial, by decide⟩ rfl (.cons ⟨by decide, trivial, ?_⟩ ?_ .nil)
    · cases changes <;> decide
    · cases changes <;> rfl
  complete := by
    intro g hg
    fin_cases hg <;> rintro ⟨⟩
  points := ⟨_, twoVmexits_points 0⟩
  flagged j h1 hj := twoVmexits_flagged j h1 (hj.trans (show 3 ≤ 5 by decide))

theorem twoVmexits_throws : (twoVmexits changes).ThrowsAfter 3 :=
  Recording.throwsAfter_of_vmexits twoVmexits_flagged (twoVmexits_points 3) (by decide) (by decide)

end

/-- If the second event changes RAX, the loop gets it. -/
theorem gets_iff_changes : ∃ f₀, Loaded (twoVmexits true) none f₀ ∧ f₀.Gets (secondGroup true) := by
  obtain ⟨f₀, h₀⟩ : ∃ f, Loaded (twoVmexits true) none f := Recording.ofRecords_loaded
  exact ⟨f₀, h₀, (gets_iff (twoVmexits true) none f₀ _ (secondGroup true) _ h₀ twoVmexits_opens rfl
    twoVmexits_throws).mpr (.inr (.inr (by decide)))⟩

/-- If it does not, the loop ends without it. -/
theorem gets_not_always : ¬ ∀ (R : Recording) (data : Option (List UInt8)) (f₀ : SyncFile)
    (gs : List Group) (g : Group) (n : ℕ × SyncPoint), Loaded R data f₀ →
    R.Opens (gs ++ [g]) n.1 → g.vmenter = some n → R.ThrowsAfter n.1 → f₀.Gets g := by
  intro halways
  obtain ⟨f₀, h₀⟩ : ∃ f, Loaded (twoVmexits false) none f := Recording.ofRecords_loaded
  have hgets := halways _ none f₀ _ (secondGroup false) _ h₀ twoVmexits_opens rfl twoVmexits_throws
  rw [h₀.gets twoVmexits_opens rfl twoVmexits_throws] at hgets
  exact absurd hgets (by decide)

end RvnSyncPoint
