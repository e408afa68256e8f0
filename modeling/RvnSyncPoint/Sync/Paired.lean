import RvnSyncPoint.Sync.Formats
import RvnSyncPoint.Sync.LastValid
import RvnSyncPoint.Sync.Stray

/-!
# Calls on readers of the two formats

A reader of a version-2 file and one of the version-3 file with the same records, which are twins and hold
the same event: `Paired`. A reader makes events of what `next()` returns, and of that it does not look at the
vector of a point that is not an interrupt; so two readers that are `Abreast` fetch the same events. The
loop of `current_event` also seeks back. As long as it finds an event to seek back from (`Settling`), both
readers seek to the same record. So every public call that is `Foreseen` keeps the two paired, and gives the
same up to such vectors (`Paired.run`).
-/

namespace RvnSyncPoint

open LittleEndian Loop StreamableFile

/-! ## The same point -/

section

variable {p q p' q' : SyncPoint} {e : SyncEvent} {β : Type}

/-- What does not look at the vector is the same. -/
theorem SamePoint.congr (F : SyncPoint → β) (hF : ∀ p, F { p with interrupt_vector := 0 } = F p)
    (h : SamePoint p q) : F p = F q := by
  rw [← hF p, h.1, hF q]

theorem SamePoint.isVmenter (h : SamePoint p q) : p.isVmenter = q.isVmenter := h.congr _ fun _ => rfl

theorem SamePoint.isVmexit (h : SamePoint p q) : p.isVmexit = q.isVmexit := h.congr _ fun _ => rfl

theorem SamePoint.valid (h : SamePoint p q) : p.valid = q.valid := h.congr _ fun _ => rfl

theorem SamePoint.isEquivalent (h : SamePoint p q) (h' : SamePoint p' q') :
    p.isEquivalent p' = q.isEquivalent q' := by
  rw [h.congr (·.isEquivalent p') fun _ => rfl, h'.congr q.isEquivalent fun _ => rfl]

theorem SamePoint.start (h : SamePoint p q) (k : ℕ) : SyncEvent.start k p = .start k q :=
  h.congr (SyncEvent.start k) fun _ => rfl

theorem SamePoint.addData (h : SamePoint p q) : e.addData p = e.addData q :=
  h.congr e.addData fun _ => rfl

theorem SamePoint.finish (h : SamePoint p q) (k : ℕ) : e.finish p k = e.finish q k :=
  h.congr (e.finish · k) fun _ => rfl

/-- An interrupt's vector is looked at, and is the same. -/
theorem SamePoint.interrupt (h : SamePoint p q) (hp : p.isInterrupt = true) :
    e.interrupt p = e.interrupt q := by
  have hrest : { e.interrupt p with interrupt_vector := 0 } = { e.interrupt q with interrupt_vector := 0 } :=
    h.congr (fun p => { e.interrupt p with interrupt_vector := 0 }) fun _ => rfl
  calc e.interrupt p
      = { ({ e.interrupt p with interrupt_vector := 0 } : SyncEvent) with
          interrupt_vector := p.interrupt_vector } := rfl
    _ = { ({ e.interrupt q with interrupt_vector := 0 } : SyncEvent) with
          interrupt_vector := q.interrupt_vector } := by rw [hrest, h.2 hp]
    _ = e.interrupt q := rfl

end

/-! ## Fetching an event -/

/-- What fetching an event needs of a relation between two readers: `next()` keeps it, and the points are
the same. -/
structure Abreast (Rel : SyncFile → SyncFile → Prop) : Prop where
  current : ∀ {f g}, Rel f g → SamePoint f.current g.current
  position : ∀ {f g}, Rel f g → f.position = g.position
  next : ∀ {f g}, Rel f g → Option.Rel Rel f.next g.next

namespace Abreast

variable {Rel : SyncFile → SyncFile → Prop} {f g : SyncFile} (L : Abreast Rel)
include L

theorem skipToVmexit (missing : Bool) (h : Rel f g) :
    Option.Rel (StepRel Rel Rel) (SyncFile.skipToVmexit missing f)
      (SyncFile.skipToVmexit missing g) := by
  refine loop_rel Rel (StepRel Rel Rel) ?_ f g h
  intro f g h
  rw [(L.current h).isVmexit]
  split_ifs
  · exact .some (.leave (.leave h))
  · refine rel_bind (L.next h) fun f g h => ?_
    rw [(L.current h).valid]
    split_ifs
    · exact .some (.again h)
    · exact .some (.leave (.again h))

theorem fetchVmenter (e : SyncEvent) (h : Rel f g) :
    Outcome.Rel Eq Rel (f.fetchVmenter e) (g.fetchVmenter e) := by
  unfold SyncFile.fetchVmenter
  rw [(L.current h).finish, L.position h]
  cases e.finish g.current g.position with
  | ok e => exact .returned rfl h
  | error err => exact .thrown h

theorem fetchAfterInterrupt (e : SyncEvent) {isp isp' : SyncPoint} (hisp : SamePoint isp isp')
    (h : Rel f g) : Outcome.Rel Eq Rel (f.fetchAfterInterrupt e isp) (g.fetchAfterInterrupt e isp') := by
  unfold SyncFile.fetchAfterInterrupt
  rw [(L.current h).isEquivalent hisp, (L.current h).addData, L.position h]
  dsimp only
  split_ifs
  · exact .thrown h
  · exact L.fetchVmenter _ h

theorem fetchInterrupt (e : SyncEvent) (hint : f.current.isInterrupt = true) (h : Rel f g) :
    Option.Rel (Outcome.Rel Eq Rel) (f.fetchInterrupt e) (g.fetchInterrupt e) := by
  have hisp := L.current h
  unfold SyncFile.fetchInterrupt
  rw [hisp.interrupt hint]
  refine rel_bind (L.next h) fun f g h => ?_
  rw [(L.current h).valid, (L.current h).isInterrupt, (L.current h).isEquivalent hisp, L.position h]
  split_ifs
  · exact .some (.returned rfl h)
  · exact .some (.thrown h)
  · refine rel_bind (L.next h) fun f g h => ?_
    rw [(L.current h).valid]
    split_ifs
    · exact .some (.returned rfl h)
    · exact .some (L.fetchAfterInterrupt _ hisp h)
  · exact .some (L.fetchAfterInterrupt _ hisp h)

theorem fetchBody (e : SyncEvent) (h : Rel f g) :
    Option.Rel (Outcome.Rel Eq Rel) (f.fetchBody e) (g.fetchBody e) := by
  unfold SyncFile.fetchBody
  rw [(L.current h).addData, (L.current h).isInterrupt]
  dsimp only
  split_ifs with hint
  · exact L.fetchInterrupt _ ((L.current h).isInterrupt.trans hint) h
  · exact .some (L.fetchVmenter _ h)

theorem fetchNewEvent (h : Rel f g) :
    Option.Rel (Outcome.Rel Eq Rel) f.fetchNewEvent g.fetchNewEvent := by
  unfold SyncFile.fetchNewEvent
  rw [(L.current h).isVmexit, L.position h]
  refine rel_bind (L.skipToVmexit _ h) fun x y hxy => ?_
  cases hxy with
  | again h => exact .some (.returned rfl h)
  | leave h =>
    dsimp only
    rw [(L.current h).start, L.position h]
    split_ifs
    · exact L.fetchBody _ h
    · refine rel_bind (L.next h) fun f g h => ?_
      rw [(L.current h).valid]
      split_ifs
      · exact .some (.returned rfl h)
      · exact L.fetchBody _ h

end Abreast

/-! ## Looking ahead -/

/-- The loop of `current_event` has got to the event `e`, on the reader `g`, and finds one to seek back from
if it seeks back. -/
inductive Settling (R : Recording) (e : SyncEvent) (g : SyncFile) : Prop
  | before {x : ℕ × SyncPoint} {T : Tape} (after : R.After g (x :: T))
    (uncached : g.current_event.is_valid = false) (vmexit : x.2.isVmexit = false)
    (two_le : e.withoutEffect = true → 2 ≤ x.1) (found : ¬ (Tape.settle R.count e x T).Lost False)
  | ended (after : R.After g [])
    (merges : e.withoutEffect = true → e.mergesWith {} = true ∨ 1 ≤ R.count)

/-- If `current_event` looks ahead, it does so from a point of the file and finds an event. -/
def SyncFile.Foresees (R : Recording) (g : SyncFile) : Prop :=
  (g.current_event.is_valid || g.eof) = false →
    Reading R g ∧ (g.current.isVmexit = true → 1 ≤ g.position) ∧
      ¬ (Tape.current R.count (g.position, g.current) (R.tape g)).Lost False

section

variable {R : Recording} {e e' : SyncEvent} {g g' : SyncFile}

/-- Back from an event at a record of the file. -/
theorem Recording.pred64_le (R : Recording) {q : ℕ} (h1 : 1 ≤ q) (hq : q ≤ R.count) :
    pred64 q ≤ R.count := by
  have hcount := R.count_lt
  unfold pred64
  omega

/-- An event merged with one of zeros merges with any other one of zeros. -/
theorem SyncEvent.merge_mergesWith {z : SyncEvent} (hz : z.mergesWith {} = true) :
    (e.merge z).mergesWith {} = true := by
  rw [SyncEvent.mergesWith_iff] at hz ⊢
  exact hz

/-- One pass of the loop: it goes on with the merged event, or seeks back to a point of the file. -/
theorem Settling.step (h : Settling R e g) (he : e.withoutEffect = true)
    (hfetch : g.fetchNewEvent = some (.returned e' g')) :
    (e.mergesWith e' = true → Settling R (e.merge e') g') ∧
      (e.mergesWith e' = false → pred64 e'.position ≤ R.count) := by
  cases h with
  | ended after merges =>
    have hlast := fetchNewEvent_ended after.1
    rw [hfetch] at hlast
    cases hlast
    refine ⟨fun _ => .ended after fun _ => .inl (SyncEvent.merge_mergesWith rfl), fun hm => ?_⟩
    rw [SyncEvent.mergesWith_lastEvent] at hm
    have hcount := (merges he).resolve_left (by simp [hm])
    exact R.pred64_le (show 1 ≤ g.position by rw [after.2]; exact hcount) after.2.le
  | @before x T after uncached vmexit two_le found =>
    have h2 := two_le he
    obtain ⟨o, ho, hgives⟩ := lookAhead_spec after uncached vmexit h2
    rw [hfetch] at ho
    cases ho
    generalize hz : Tape.fetchVmexit T = z at hgives
    cases hgives with
    | nothing hend hsame =>
      rw [Tape.settle_nothing he hz] at found
      refine ⟨fun _ => .ended hend fun _ => .inl (SyncEvent.merge_mergesWith rfl), fun hm => ?_⟩
      rw [if_neg (by simp [hm])] at found
      exact absurd trivial found
    | cut hend hsame =>
      obtain ⟨pre, v, mid, hT, -, -, hcut, -⟩ := Tape.fetchVmexit_cut hz
      have hpos : e'.position = v.1 := hcut.position
      obtain ⟨-, h1, hle, -⟩ := after.mem_tape (y := v) (by simp [hT])
      exact ⟨fun _ => .ended hend fun _ => .inr (h1.trans hle), fun _ => R.pred64_le (by omega) (by omega)⟩
    | @complete _ _ y U hafter hsame =>
      obtain ⟨pre, v, mid, hT, -, -, hy, hends⟩ := Tape.fetchVmexit_complete hz
      have hpos : e'.position = v.1 := hends.position
      obtain ⟨-, h1, hle, -⟩ := after.mem_tape (y := v) (by simp [hT])
      obtain ⟨hlt, -⟩ := after.mem_tape (y := y) (by simp [hT])
      refine ⟨fun hm => ?_, fun _ => R.pred64_le (by omega) (by omega)⟩
      rw [Tape.settle_merge he hz hm] at found
      exact .before hafter (hsame.1 ▸ uncached) (Tape.isVmexit_of_isVmenter hy) (fun _ => by omega) found

/-- The event that the loop begins with. -/
theorem SyncFile.Foresees.settling (h : g.Foresees R)
    (hnot : (g.current_event.is_valid || g.eof) = false)
    (hfetch : g.fetchNewEvent = some (.returned e g')) : Settling R e g' := by
  obtain ⟨hread, hvmexit, hfound⟩ := h hnot
  obtain ⟨hc, -⟩ := Bool.or_eq_false_iff.mp hnot
  have hafter := hread.after
  obtain ⟨o, ho, hgives⟩ := fetchNewEvent_spec hafter hc
  rw [hfetch] at ho
  cases ho
  by_cases hmissing : (!g.current.isVmexit && g.position == 1) = true
  · -- An event with an unknown start is not looked past.
    rw [Tape.fetch, if_pos hmissing] at hgives
    generalize hbody : Tape.body (.startUnknown g.position) (g.position, g.current) (R.tape g) = z at hgives
    cases hgives with
    | nothing hend hsame => exact (Tape.body_not_nothing hbody).elim
    | cut hend hsame =>
      have he := Tape.startUnknown_stays (x := (g.position, g.current)) hmissing
        (Tape.body_cut hbody).1.position
      exact .ended hend fun he' => absurd (he.symm.trans he') Bool.false_ne_true
    | complete hafter hsame =>
      obtain ⟨mid, -, hy, hends⟩ := Tape.body_complete hbody
      have he := Tape.startUnknown_stays (x := (g.position, g.current)) hmissing hends.position
      exact .before hafter (hsame.1 ▸ hc) (Tape.isVmexit_of_isVmenter hy)
        (fun he' => absurd (he.symm.trans he') Bool.false_ne_true) (by rw [Tape.settle_stay he]; exact id)
  · unfold Tape.current at hfound
    rw [Tape.fetch, if_neg hmissing] at hgives hfound
    generalize hz : Tape.fetchVmexit ((g.position, g.current) :: R.tape g) = z at hgives hfound
    cases hgives with
    | nothing hend hsame => exact .ended hend fun _ => .inl rfl
    | cut hend hsame =>
      obtain ⟨pre, v, mid, hT, -, hv, hcut, -⟩ := Tape.fetchVmexit_cut hz
      obtain ⟨h1, hle⟩ := hafter.vmexit_pos hvmexit (y := v) (by rw [hT]; simp) hv
      exact .ended hend fun _ => .inr (h1.trans hle)
    | @complete _ _ y U hafter' hsame =>
      obtain ⟨pre, v, mid, hT, -, hv, hy, hends⟩ := Tape.fetchVmexit_complete hz
      obtain ⟨h1, -⟩ := hafter.vmexit_pos hvmexit (y := v) (by rw [hT]; simp) hv
      have hlt : v.1 < y.1 := by
        have hsorted := hafter.sorted
        rw [hT, List.pairwise_append, List.pairwise_cons] at hsorted
        exact hsorted.2.1.1 y (by simp)
      exact .before hafter' (hsame.1 ▸ hc) (Tape.isVmexit_of_isVmenter hy) (fun _ => by omega) hfound

end

/-! ## What is kept besides the points -/

section

variable {f g : SyncFile} {c : List UInt8} {q : ℕ}

theorem SyncFile.readPass_count (hpass : f.readPass = some g) : g.sync_point_count = f.sync_point_count := by
  have hkeep : f.readPoint.2.sync_point_count = f.sync_point_count := by
    unfold SyncFile.readPoint
    split_ifs <;> rfl
  unfold SyncFile.readPass at hpass
  obtain ⟨⟨data, data_file⟩, -, hpass⟩ := Option.bind_eq_some_iff.mp hpass
  cases hpass
  split_ifs <;> exact hkeep

/-- `next()` forgets the event, unless it does nothing at the end of the file. -/
theorem SyncFile.next_frame (hnext : f.next = some g) :
    g.current_event = (if f.eof then f.current_event else f.current_event.dropped) ∧
      g.last_valid_position = f.last_valid_position ∧ g.sync_point_count = f.sync_point_count := by
  unfold SyncFile.next at hnext
  split_ifs at hnext with heof
  · cases hnext
    exact ⟨(if_pos heof).symm, rfl, rfl⟩
  · obtain ⟨k, hskip, rfl⟩ := Option.map_eq_some_iff.mp hnext
    have hkeep : SameCache f k ∧ k.sync_point_count = f.sync_point_count := by
      refine loop_inv (fun k => SameCache f k ∧ k.sync_point_count = f.sync_point_count)
        (fun k => SameCache f k ∧ k.sync_point_count = f.sync_point_count) ?_ ?_ f k ⟨.rfl, rfl⟩ hskip
      · rintro s s' ⟨hcache, hcount⟩ hstep
        obtain ⟨t, ht, hleave⟩ := Option.bind_eq_some_iff.mp hstep
        simp only [Option.pure_def, Option.some.injEq] at hleave
        split_ifs at hleave
        cases hleave
        exact ⟨hcache.trans (s.readPass_cache ht), (s.readPass_count ht).trans hcount⟩
      · rintro s r ⟨hcache, hcount⟩ hstep
        obtain ⟨t, ht, hleave⟩ := Option.bind_eq_some_iff.mp hstep
        simp only [Option.pure_def, Option.some.injEq] at hleave
        split_ifs at hleave
        cases hleave
        exact ⟨hcache.trans (s.readPass_cache ht), (s.readPass_count ht).trans hcount⟩
    obtain ⟨⟨hevent, hlast⟩, hcount⟩ := hkeep
    rw [if_neg heof, SyncFile.dropEvent_eq, ← hevent]
    exact ⟨rfl, hlast, hcount⟩

/-- A seek to a record forgets the event too. -/
theorem SyncFile.seek_frame (hon : On c f.file) (hne : f.record_size ≠ 0) (hseek : f.seek q = some g) :
    g.current_event = (if q = 0 then f.current_event else f.current_event.dropped) ∧
      g.last_valid_position = g.position - 1 ∧ g.sync_point_count = f.sync_point_count := by
  refine and_left_comm.mp ⟨seek_lastValid hne hseek, ?_⟩
  by_cases hq : q = 0
  · rw [SyncFile.seek, if_neg hne, if_pos hq] at hseek
    cases hseek
    rw [if_pos hq]
    exact ⟨rfl, rfl⟩
  · rw [seek_placed hne hq] at hseek
    obtain ⟨k, hk, rfl⟩ := Option.map_eq_some_iff.mp hseek
    obtain ⟨hevent, -, hcount⟩ := SyncFile.next_frame hk
    have heof : (f.placed q).eof = false := hon.seek_eof _
    rw [heof] at hevent
    rw [if_neg hq]
    exact ⟨hevent, hcount⟩

/-- A seek whose first pass meets the end of the file. -/
theorem seek_of_readPass_eof {k : SyncFile} (hne : f.record_size ≠ 0) (hq : q ≠ 0) (hon : On c f.file)
    (hpass : (f.placed q).readPass = some k) (hk : k.eof = true) :
    f.seek q = some { k.dropEvent with
      last_valid_position := if k.dropEvent.position = 0 then 0 else k.dropEvent.position - 1 } := by
  have heof : (f.placed q).eof = false := hon.seek_eof _
  have hskip : SyncFile.skipIdentical (f.placed q).current (f.placed q) = some k :=
    loop_leave (by simp [hpass, hk])
  rw [seek_placed hne hq, SyncFile.next, heof, hskip]
  rfl

end

/-! ## Pairs -/

/-- Twins that hold the same event. -/
structure Paired (A : RecordingV2) (B : Recording) (f g : SyncFile) : Prop extends Twins A B f g where
  current_event : f.current_event = g.current_event
  last_valid_position : f.last_valid_position = g.last_valid_position
  old_sync_point_count : f.sync_point_count = A.count

/-- The call is in the domain: its position is one of the file, or past its end by less than would overflow
a file offset, and `current_event` finds an event if it looks ahead. -/
def Call.Foreseen (R : Recording) (g : SyncFile) : Call → Prop
  | .currentEvent => g.Foresees R
  | .advanceTo q => (q ≤ R.count ∨ q ≤ 2 ^ 30) ∧ ∀ g' k, g.seek q = some g' → q ≠ 0 →
      g'.current.isVmenter = true → g'.backToVmexit q = some k → k.Foresees R
  | .seekFromEnd p => p < R.count
  | _ => True

/-- The same answer to a public call, up to the vector of a point that is not an interrupt. -/
def SameAnswer (a b : Except RuntimeError Value) : Prop :=
  a = b ∨ ∃ p q, a = .ok (.point p) ∧ b = .ok (.point q) ∧ SamePoint p q

section

variable {A : RecordingV2} {B : Recording} {f g : SyncFile} {e : SyncEvent} {q : ℕ}

theorem Twins.old_record_size_ne (h : Twins A B f g) : f.record_size ≠ 0 := by
  rw [h.old_record_size]
  decide

/-- What is remembered along the way. -/
theorem Paired.keep (h : Paired A B f g) (e : SyncEvent) :
    Paired A B { f with current_event := e } { g with current_event := e } :=
  ⟨h.toTwins.update e e f.last_valid_position g.last_valid_position, rfl, h.last_valid_position,
    h.old_sync_point_count⟩

theorem Paired.validate (h : Paired A B f g) : Paired A B f.validate g.validate := by
  rw [validate_eq, validate_eq]
  exact ⟨h.toTwins.update f.current_event g.current_event f.position g.position, h.current_event,
    h.position, h.old_sync_point_count⟩

variable (hA : A.Plain) (hAB : Rewrites A B)
include hAB

/-- Past the last record, a seek of either reader reads the zero point. -/
theorem Twins.seek_past_end (h : Twins A B f g) (hcount : A.count < q) (hq : q ≤ 2 ^ 30) :
    ∃ f' g', f.seek q = some f' ∧ g.seek q = some g' ∧ Twins A B f' g' ∧ g'.current = zeroPoint 0 := by
  have hlen := A.length_eq
  have hlen' := B.length_eq
  have hrs := B.record_size.toNat_lt
  have hmul : B.record_size.toNat * (q - 1) ≤ 2 ^ 32 * 2 ^ 30 := Nat.mul_le_mul hrs.le (by omega)
  have hmono : B.record_size.toNat * B.count ≤ B.record_size.toNat * (q - 1) :=
    Nat.mul_le_mul_left _ (by rw [hAB.count]; omega)
  have hfile : (f.placed q).file = openAt A.content (RecordingV2.offset (q - 1)) := by
    have hoff : (HEADER_SIZE + f.record_size.toNat * (q - 1)) % 2 ^ 64 = RecordingV2.offset (q - 1) := by
      rw [h.old_record_size]
      exact Nat.mod_eq_of_lt (by show HEADER_SIZE + 80 * (q - 1) < 2 ^ 64; unfold HEADER_SIZE; omega)
    show f.file.seek _ = _
    rw [hoff]
    exact h.old_on.seek (by unfold RecordingV2.offset HEADER_SIZE; omega)
  have hfile' : (g.placed q).file = openAt B.content (B.offset (q - 1)) :=
    placed_file h.toAttached (by unfold Recording.offset HEADER_SIZE; omega)
  have hpass := readPass_end_v2 hfile (by show f.version < 3; rw [h.old_version]; decide)
    (by unfold RecordingV2.offset; omega)
  have hpass' := readPass_end hfile' h.version (by unfold Recording.offset; omega)
  have htwins : Twins A B { f.placed q with
      file := endAt A.content (RecordingV2.offset (q - 1)), current := zeroPoint ((f.placed q).stack 0).1,
      stack := fun i => (f.placed q).stack (i + 1) } { g.placed q with
      file := endAt B.content (B.offset (q - 1)), current := zeroPoint (g.placed q).current.interrupt_vector } :=
    ⟨⟨endAt_on _ _, h.version, h.record_size, h.sync_point_count, h.data⟩, endAt_on _ _, h.old_version,
      h.old_record_size, h.data_file, rfl, ⟨rfl, nofun⟩, .ended rfl rfl⟩
  refine ⟨_, _, seek_of_readPass_eof h.old_record_size_ne (by omega) h.old_on hpass rfl,
    seek_of_readPass_eof h.record_size_ne (by omega) h.on hpass' rfl, ?_⟩
  rw [SyncFile.dropEvent_eq, SyncFile.dropEvent_eq]
  exact ⟨htwins.update _ _ _ _, rfl⟩

/-- A seek that stands on a VMEnter is one to a record. -/
theorem Twins.seek_isVmenter (h : Twins A B f g) (hq : q ≤ B.count ∨ q ≤ 2 ^ 30) {k : SyncFile}
    (hk : g.seek q = some k) (hv : k.current.isVmenter = true) : q ≤ B.count := by
  by_contra hlt
  obtain ⟨-, g', -, hg', -, hzero⟩ := h.seek_past_end hAB (q := q) (by rw [← hAB.count]; omega)
    (hq.resolve_left hlt)
  rw [hk] at hg'
  cases hg'
  rw [hzero] at hv
  cases hv

include hA

/-- `next()`. -/
theorem Paired.next (h : Paired A B f g) : Option.Rel (Paired A B) f.next g.next := by
  obtain ⟨f', g', hf, hg, htwins⟩ := h.toTwins.next hA hAB
  obtain ⟨hevent, hlast, hcount⟩ := SyncFile.next_frame hf
  obtain ⟨hevent', hlast', -⟩ := SyncFile.next_frame hg
  rw [hf, hg]
  refine .some ⟨htwins, ?_, ?_, hcount.trans h.old_sync_point_count⟩
  · rw [hevent, hevent', h.eof, h.current_event]
  · rw [hlast, hlast', h.last_valid_position]

theorem paired_abreast : Abreast (Paired A B) where
  current h := h.current
  position h := h.position
  next h := h.next hA hAB

/-- A seek in the domain. -/
theorem Paired.seek (h : Paired A B f g) (hq : q ≤ B.count ∨ q ≤ 2 ^ 30) :
    Option.Rel (Paired A B) (f.seek q) (g.seek q) := by
  have htwins : ∃ f' g', f.seek q = some f' ∧ g.seek q = some g' ∧ Twins A B f' g' := by
    rcases Nat.lt_or_ge A.count q with hlt | hle
    · obtain ⟨f', g', hf, hg, htwins, -⟩ :=
        h.toTwins.seek_past_end hAB hlt (hq.resolve_left (by rw [hAB.count]; omega))
      exact ⟨f', g', hf, hg, htwins⟩
    · exact h.toTwins.seek hA hAB hle
  obtain ⟨f', g', hf, hg, htwins⟩ := htwins
  obtain ⟨hevent, hlast, hcount⟩ := SyncFile.seek_frame h.old_on h.old_record_size_ne hf
  obtain ⟨hevent', hlast', -⟩ := SyncFile.seek_frame h.on h.record_size_ne hg
  rw [hf, hg]
  refine .some ⟨htwins, ?_, ?_, hcount.trans h.old_sync_point_count⟩
  · rw [hevent, hevent', h.current_event]
  · rw [hlast, hlast', htwins.position]

/-! ## Calls on pairs -/

/-- The loop of `current_event` that merges events. -/
theorem Paired.merge (h : Paired A B f g) (hs : Settling B e g) :
    Option.Rel (Outcome.Rel Eq (Paired A B)) (loop SyncFile.mergePass (e, f))
      (loop SyncFile.mergePass (e, g)) := by
  refine loop_rel (fun s t => s.1 = t.1 ∧ Paired A B s.2 t.2 ∧ Settling B t.1 t.2)
    (Outcome.Rel Eq (Paired A B)) ?_ _ _ ⟨rfl, h, hs⟩
  rintro ⟨e, f⟩ ⟨-, g⟩ ⟨rfl, h, hs⟩
  unfold SyncFile.mergePass
  dsimp only
  split_ifs with he
  · refine rel_bind (rel_right ((paired_abreast hA hAB).fetchNewEvent h)) fun x y hxy => ?_
    obtain ⟨hxy, hy⟩ := hxy
    cases hxy with
    | thrown h => exact .some (.leave (.thrown h))
    | returned he' h =>
      subst he'
      obtain ⟨hmerge, hback⟩ := hs.step he hy
      dsimp only
      split_ifs with hm
      · exact .some (.again ⟨rfl, h, hmerge hm⟩)
      · exact rel_bind (h.seek hA hAB (.inl (hback (by simpa using hm)))) fun f g h =>
          .some (.leave (.returned rfl h))
  · exact .some (.leave (.returned rfl h))

/-- `current_event()`. -/
theorem Paired.currentEvent (h : Paired A B f g) (hfind : g.Foresees B) :
    Option.Rel (Outcome.Rel Eq (Paired A B)) f.currentEvent g.currentEvent := by
  unfold SyncFile.currentEvent
  rw [h.current_event, h.eof]
  split_ifs with hcached
  · exact .some (.returned rfl h)
  · refine rel_bind (rel_right ((paired_abreast hA hAB).fetchNewEvent h)) fun x y hxy => ?_
    obtain ⟨hxy, hy⟩ := hxy
    cases hxy with
    | thrown h => exact .some (.thrown h)
    | returned he h =>
      subst he
      refine rel_bind (h.merge hA hAB (hfind.settling (by simpa using hcached) hy)) fun x y hxy => ?_
      cases hxy with
      | thrown h => exact .some (.thrown h)
      | returned he h =>
        subst he
        exact .some (.returned rfl (h.keep _))

/-- The loop of `advance_to`, which counts down the position that both readers are at. -/
theorem Paired.backToVmexit (h : Paired A B f g) (hpos : g.position = q) (hq : q ≤ B.count) :
    Option.Rel (Paired A B) (f.backToVmexit q) (g.backToVmexit q) := by
  refine loop_rel (fun s t => s.1 = t.1 ∧ Paired A B s.2 t.2 ∧ t.2.position = t.1 ∧ t.1 ≤ B.count)
    (Paired A B) ?_ _ _ ⟨rfl, h, hpos, hq⟩
  rintro ⟨q, f⟩ ⟨-, g⟩ ⟨rfl, h, hpos, hq⟩
  dsimp only at hpos hq ⊢
  rw [h.current.isVmexit, h.position]
  split_ifs with hgo
  · have hlt : 1 < g.position := by simp at hgo; exact hgo.2
    have hle := B.pred64_le (q := q) (by omega) hq
    refine rel_bind (rel_right (h.seek hA hAB (.inl hle))) fun f' g' hk => ?_
    exact .some (.again ⟨rfl, hk.1, Recording.Reaches.seek (.inl hle) h.toAttached hk.2, hle⟩)
  · exact .some (.leave h)

/-- `advance_to()`. -/
theorem Paired.advanceTo (h : Paired A B f g) (hok : (Call.advanceTo q).Foreseen B g) :
    Option.Rel (Outcome.Rel Eq (Paired A B)) (f.advanceTo q) (g.advanceTo q) := by
  obtain ⟨hq, hfind⟩ := hok
  unfold SyncFile.advanceTo
  refine rel_bind (rel_right (h.seek hA hAB hq)) fun f' g' hk => ?_
  obtain ⟨h', hg'⟩ := hk
  rw [h'.current.isVmenter]
  split_ifs with h0 hv
  · exact .some (.returned rfl h')
  · have hle := h.seek_isVmenter hAB hq hg' hv
    have hpos := Recording.Reaches.seek (.inl hle) h.toAttached hg'
    refine rel_bind (rel_right (h'.backToVmexit hA hAB hpos hle)) fun f'' g'' hk => ?_
    refine rel_bind (hk.1.currentEvent hA hAB (hfind g' g'' hg' h0 hv hk.2)) fun x y hxy => ?_
    cases hxy with
    | thrown h => exact .some (.thrown h)
    | returned he h => exact .some (.returned rfl h)
  · exact .some (.returned rfl h')

omit hA in
/-- `seek_from_end()`. -/
theorem Paired.seekFromEnd (h : Paired A B f g) {p : ℕ} (hp : p < B.count) :
    Paired A B (f.seekFromEnd p) (g.seekFromEnd p) := by
  have hcount := hAB.count
  have hlen : RecordingV2.offset (A.count - (p + 1)) + f.record_size.toNat * (p + 1) = A.content.length := by
    rw [h.old_record_size, A.length_eq]
    show HEADER_SIZE + 80 * (A.count - (p + 1)) + 80 * (p + 1) = HEADER_SIZE + 80 * A.count
    omega
  have hquot : (RecordingV2.offset (A.count - (p + 1)) - HEADER_SIZE) / f.record_size.toNat =
      A.count - (p + 1) := by
    rw [h.old_record_size]
    show (HEADER_SIZE + 80 * (A.count - (p + 1)) - HEADER_SIZE) / 80 = A.count - (p + 1)
    omega
  obtain ⟨hread, hpos, hcur, hev, hlast, hdata⟩ := seekFromEnd_reading h.toAttached hp
  rw [seekFromEnd_eq (o := RecordingV2.offset (A.count - (p + 1))) h.old_on h.old_record_size_ne A.size_lt
    (Nat.le_add_right _ _) hlen, hquot]
  refine ⟨⟨hread.toAttached, openAt_on _ _, h.old_version, h.old_record_size, h.data_file.trans hdata.symm,
    ?_, hcur ▸ SamePoint.refl _, ?_⟩, h.current_event.trans hev.symm, hlast.symm, h.old_sync_point_count⟩
  · rw [hpos, hcount]
  · exact .before rfl hread.file (Nat.sub_le _ _) (.inl rfl) (.inl hcur)

/-- Every public call that is foreseen gives the same on both readers, up to the vector of a point that is
not an interrupt, and keeps them paired; or it ends on neither. -/
theorem Paired.run (h : Paired A B f g) {c : Call} (hok : c.Foreseen B g) :
    Option.Rel (Outcome.Rel (fun v w => SameAnswer (.ok v) (.ok w)) (Paired A B)) (c.run f) (c.run g) := by
  cases c with
  | isValid =>
    rw [Call.run, Call.run, SyncFile.isValid, SyncFile.isValid, h.old_on.opened, h.on.opened]
    exact .some (.returned (.inl rfl) h)
  | eof =>
    rw [Call.run, Call.run, h.eof]
    exact .some (.returned (.inl rfl) h)
  | next => exact rel_map (h.next hA hAB) fun f g h => .returned (.inr ⟨_, _, rfl, rfl, h.current⟩) h
  | current => exact .some (.returned (.inr ⟨_, _, rfl, rfl, h.current⟩) h)
  | currentEvent =>
    refine rel_map (h.currentEvent hA hAB hok) fun x y hxy => ?_
    cases hxy with
    | returned he h => exact .returned (.inl (by rw [he])) h
    | thrown h => exact .thrown h
  | position =>
    rw [Call.run, Call.run, h.position]
    exact .some (.returned (.inl rfl) h)
  | advanceTo q =>
    refine rel_map (h.advanceTo hA hAB hok) fun x y hxy => ?_
    cases hxy with
    | returned _ h => exact .returned (.inl rfl) h
    | thrown h => exact .thrown h
  | lastValidPosition =>
    rw [Call.run, Call.run, h.last_valid_position]
    exact .some (.returned (.inl rfl) h)
  | seekFromEnd p => exact .some (.returned (.inl rfl) (h.seekFromEnd hAB hok))
  | validate => exact .some (.returned (.inl rfl) h.validate)
  | syncPointCount =>
    rw [Call.run, Call.run, h.old_sync_point_count, h.sync_point_count, hAB.count]
    exact .some (.returned (.inl rfl) h)

end

end RvnSyncPoint
