import RvnSyncPoint.Sync.File

/-!
# Readers in lockstep

A relation between two readers under which they do the same: `Lockstep` lists what it must keep, for
the reads and the assignments that the methods are made of. Then each method keeps it too: from
related readers, both calls end or neither does, and they end with the same result in related
readers. With a relation between a reader and itself, this is the rule for an invariant.
-/

namespace RvnSyncPoint

open Loop StreamableFile

variable {Rel : SyncFile → SyncFile → Prop}

/-- What a relation between two readers in lockstep keeps. -/
structure Lockstep (Rel : SyncFile → SyncFile → Prop) : Prop where
  file : ∀ {f g}, Rel f g → f.file = g.file
  current : ∀ {f g}, Rel f g → f.current = g.current
  position : ∀ {f g}, Rel f g → f.position = g.position
  record_size : ∀ {f g}, Rel f g → f.record_size = g.record_size
  is_valid : ∀ {f g}, Rel f g → f.current_event.is_valid = g.current_event.is_valid
  readPass : ∀ {f g}, Rel f g → Option.Rel Rel f.readPass g.readPass
  seek : ∀ {f g}, Rel f g → ∀ p, Rel { f with file := f.file.seek p } { g with file := g.file.seek p }
  seekFromEnd : ∀ {f g}, Rel f g → ∀ p,
    Rel { f with file := f.file.seekFromEnd p } { g with file := g.file.seekFromEnd p }
  resetCurrent : ∀ {f g}, Rel f g → Rel { f with current := {} } { g with current := {} }
  setPosition : ∀ {f g}, Rel f g → ∀ p, Rel { f with position := p } { g with position := p }
  setLast : ∀ {f g}, Rel f g → ∀ l,
    Rel { f with last_valid_position := l } { g with last_valid_position := l }
  setEvent : ∀ {f g}, Rel f g → ∀ e, Rel { f with current_event := e } { g with current_event := e }

/-- `validate()` makes the position the last valid one. -/
theorem validate_eq (f : SyncFile) : f.validate = { f with last_valid_position := f.position } := by
  unfold SyncFile.validate
  split_ifs with hne
  · rfl
  · obtain ⟨file, data_file, current, event, position, last, record_size, version, count, stack⟩ := f
    simpa using hne

namespace Lockstep

variable {f g : SyncFile} (L : Lockstep Rel)
include L

theorem eof (h : Rel f g) : f.eof = g.eof := by
  unfold SyncFile.eof
  rw [L.file h]

theorem dropEvent (h : Rel f g) : Rel f.dropEvent g.dropEvent := by
  unfold SyncFile.dropEvent
  rw [L.is_valid h]
  split_ifs
  · exact L.setEvent h {}
  · exact h

theorem skipIdentical (prev : SyncPoint) (h : Rel f g) :
    Option.Rel Rel (SyncFile.skipIdentical prev f) (SyncFile.skipIdentical prev g) := by
  refine loop_rel Rel Rel ?_ f g h
  intro f g h
  refine rel_bind (L.readPass h) fun f g h => ?_
  rw [L.current h, L.eof h]
  split_ifs
  · exact .some (.again h)
  · exact .some (.leave h)

theorem next (h : Rel f g) : Option.Rel Rel f.next g.next := by
  unfold SyncFile.next
  rw [L.eof h, L.current h]
  split_ifs
  · exact .some h
  · exact rel_map (L.skipIdentical _ h) fun f g h => L.dropEvent h

theorem seekTo (q : ℕ) (h : Rel f g) : Option.Rel Rel (f.seek q) (g.seek q) := by
  have hrs := L.record_size h
  unfold SyncFile.seek
  by_cases h0 : f.record_size = 0
  · rw [if_pos h0, if_pos (hrs ▸ h0)]
    exact .some (L.setPosition h 0)
  rw [if_neg h0, if_neg (show ¬ g.record_size = 0 from hrs ▸ h0)]
  by_cases hq : q = 0
  · rw [if_pos hq, if_pos hq]
    exact .some (L.setPosition (L.seek (L.resetCurrent (L.setLast h 0)) HEADER_SIZE) 0)
  · rw [if_neg hq, if_neg hq]
    have hoff : (HEADER_SIZE + g.record_size.toNat * (q - 1)) % 2 ^ 64 =
        (HEADER_SIZE + f.record_size.toNat * (q - 1)) % 2 ^ 64 := by rw [hrs]
    dsimp only
    rw [hoff]
    refine rel_bind (L.next (L.resetCurrent (L.seek (L.setPosition h (q - 1)) _)))
      fun f g h => ?_
    have hlast : (if g.position = 0 then 0 else g.position - 1) =
        if f.position = 0 then 0 else f.position - 1 := by rw [L.position h]
    rw [hlast]
    exact .some (L.setLast h _)

theorem seekFromEndTo (p : ℕ) (h : Rel f g) : Rel (f.seekFromEnd p) (g.seekFromEnd p) := by
  have hrs := L.record_size h
  have hoff : toInt64 ((g.record_size.toNat * ((p + 1) % 2 ^ 64)) % 2 ^ 64) =
      toInt64 ((f.record_size.toNat * ((p + 1) % 2 ^ 64)) % 2 ^ 64) := by rw [hrs]
  unfold SyncFile.seekFromEnd
  by_cases h0 : f.record_size = 0
  · rw [if_pos h0, if_pos (hrs ▸ h0)]
    exact L.setPosition h 0
  · rw [if_neg h0, if_neg (hrs ▸ h0)]
    dsimp only
    rw [hoff]
    generalize toInt64 ((f.record_size.toNat * ((p + 1) % 2 ^ 64)) % 2 ^ 64) = off
    have hpos : (((g.file.seekFromEnd off).pos + (2 ^ 64 - HEADER_SIZE)) % 2 ^ 64) /
        g.record_size.toNat = (((f.file.seekFromEnd off).pos + (2 ^ 64 - HEADER_SIZE)) % 2 ^ 64) /
        f.record_size.toNat := by rw [hrs, L.file h]
    rw [hpos]
    exact L.setLast (L.setPosition (L.seekFromEnd (L.resetCurrent h) off) _) p

theorem validate (h : Rel f g) : Rel f.validate g.validate := by
  have hlast := L.setLast h f.position
  have hpos : { g with last_valid_position := f.position } = g.validate := by
    rw [validate_eq, L.position h]
  rw [validate_eq, ← hpos]
  exact hlast

/-! ## Events -/

theorem skipToVmexit (missing : Bool) (h : Rel f g) :
    Option.Rel (StepRel Rel Rel) (SyncFile.skipToVmexit missing f)
      (SyncFile.skipToVmexit missing g) := by
  refine loop_rel Rel (StepRel Rel Rel) ?_ f g h
  intro f g h
  rw [L.current h]
  split_ifs
  · exact .some (.leave (.leave h))
  · refine rel_bind (L.next h) fun f g h => ?_
    rw [L.current h]
    split_ifs
    · exact .some (.again h)
    · exact .some (.leave (.again h))

theorem fetchVmenter (e : SyncEvent) (h : Rel f g) :
    Outcome.Rel Eq Rel (f.fetchVmenter e) (g.fetchVmenter e) := by
  unfold SyncFile.fetchVmenter
  rw [L.current h, L.position h]
  cases e.finish g.current g.position with
  | ok e => exact .returned rfl h
  | error err => exact .thrown h

theorem fetchAfterInterrupt (e : SyncEvent) (isp : SyncPoint) (h : Rel f g) :
    Outcome.Rel Eq Rel (f.fetchAfterInterrupt e isp) (g.fetchAfterInterrupt e isp) := by
  unfold SyncFile.fetchAfterInterrupt
  rw [L.current h, L.position h]
  dsimp only
  split_ifs
  · exact .thrown h
  · exact L.fetchVmenter _ h

theorem fetchInterrupt (e : SyncEvent) (h : Rel f g) :
    Option.Rel (Outcome.Rel Eq Rel) (f.fetchInterrupt e) (g.fetchInterrupt e) := by
  unfold SyncFile.fetchInterrupt
  rw [L.current h]
  refine rel_bind (L.next h) fun f g h => ?_
  rw [L.current h, L.position h]
  split_ifs
  · exact .some (.returned rfl h)
  · exact .some (.thrown h)
  · refine rel_bind (L.next h) fun f g h => ?_
    rw [L.current h]
    split_ifs
    · exact .some (.returned rfl h)
    · exact .some (L.fetchAfterInterrupt _ _ h)
  · exact .some (L.fetchAfterInterrupt _ _ h)

theorem fetchBody (e : SyncEvent) (h : Rel f g) :
    Option.Rel (Outcome.Rel Eq Rel) (f.fetchBody e) (g.fetchBody e) := by
  unfold SyncFile.fetchBody
  rw [L.current h]
  dsimp only
  split_ifs
  · exact L.fetchInterrupt _ h
  · exact .some (L.fetchVmenter _ h)

theorem fetchNewEvent (h : Rel f g) :
    Option.Rel (Outcome.Rel Eq Rel) f.fetchNewEvent g.fetchNewEvent := by
  unfold SyncFile.fetchNewEvent
  rw [L.current h, L.position h]
  refine rel_bind (L.skipToVmexit _ h) fun x y hxy => ?_
  cases hxy with
  | again h => exact .some (.returned rfl h)
  | leave h =>
    dsimp only
    rw [L.current h, L.position h]
    split_ifs
    · exact L.fetchBody _ h
    · refine rel_bind (L.next h) fun f g h => ?_
      rw [L.current h]
      split_ifs
      · exact .some (.returned rfl h)
      · exact L.fetchBody _ h

/-- The loop of `current_event` that merges events. -/
theorem merge (e : SyncEvent) (h : Rel f g) : Option.Rel (Outcome.Rel Eq Rel)
    (loop SyncFile.mergePass (e, f)) (loop SyncFile.mergePass (e, g)) := by
  refine loop_rel (fun s t => s.1 = t.1 ∧ Rel s.2 t.2) (Outcome.Rel Eq Rel) ?_ _ _ ⟨rfl, h⟩
  rintro ⟨e, f⟩ ⟨-, g⟩ ⟨rfl, h⟩
  unfold SyncFile.mergePass
  dsimp only
  split_ifs
  · refine rel_bind (L.fetchNewEvent h) fun x y hxy => ?_
    cases hxy with
    | thrown h => exact .some (.leave (.thrown h))
    | returned he h =>
      subst he
      dsimp only
      split_ifs
      · exact .some (.again ⟨rfl, h⟩)
      · exact rel_bind (L.seekTo _ h) fun f g h => .some (.leave (.returned rfl h))
  · exact .some (.leave (.returned rfl h))

/-- `current_event`, where the cached events are related by `Q` if they are what it returns. -/
theorem currentEvent {Q : SyncEvent → SyncEvent → Prop} (hQ : ∀ e, Q e e) (h : Rel f g)
    (hc : (f.current_event.is_valid || f.eof) = true → Q f.current_event g.current_event) :
    Option.Rel (Outcome.Rel Q Rel) f.currentEvent g.currentEvent := by
  unfold SyncFile.currentEvent
  rw [← L.is_valid h, ← L.eof h]
  split_ifs with hcached
  · exact .some (.returned (hc hcached) h)
  · refine rel_bind (L.fetchNewEvent h) fun x y hxy => ?_
    cases hxy with
    | thrown h => exact .some (.thrown h)
    | returned he h =>
      subst he
      refine rel_bind (L.merge _ h) fun x y hxy => ?_
      cases hxy with
      | thrown h => exact .some (.thrown h)
      | returned he h =>
        subst he
        exact .some (.returned (hQ _) (L.setEvent h _))

/-- The loop of `advance_to` that goes back to a VMExit. -/
theorem backToVmexit (q : ℕ) (h : Rel f g) :
    Option.Rel Rel (f.backToVmexit q) (g.backToVmexit q) := by
  refine loop_rel (fun s t => s.1 = t.1 ∧ Rel s.2 t.2) Rel ?_ _ _ ⟨rfl, h⟩
  rintro ⟨q, f⟩ ⟨-, g⟩ ⟨rfl, h⟩
  dsimp only
  rw [L.current h, L.position h]
  split_ifs
  · exact rel_bind (L.seekTo _ h) fun f g h => .some (.again ⟨rfl, h⟩)
  · exact .some (.leave h)

theorem advanceTo (q : ℕ) (h : Rel f g) :
    Option.Rel (Outcome.Rel Eq Rel) (f.advanceTo q) (g.advanceTo q) := by
  unfold SyncFile.advanceTo
  refine rel_bind (L.seekTo q h) fun f g h => ?_
  rw [L.current h]
  split_ifs
  · exact .some (.returned rfl h)
  · refine rel_bind (L.backToVmexit q h) fun f g h => ?_
    -- The event is thrown away, so that it does not matter which one is returned.
    refine rel_bind (L.currentEvent (Q := fun _ _ => True) (fun _ => trivial) h
      fun _ => trivial) fun x y hxy => ?_
    cases hxy with
    | thrown h => exact .some (.thrown h)
    | returned he h => exact .some (.returned rfl h)
  · exact .some (.returned rfl h)

end Lockstep

end RvnSyncPoint
