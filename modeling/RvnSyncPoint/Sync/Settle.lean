import RvnSyncPoint.Sync.Fetched

/-!
# The event that `current_event` settles on

`current_event` as a function of the tape: `Tape.current` gives the event that it returns, and where the
reader is left. The look-ahead either merges the next event and goes on with it, or goes back to the
point before it. When the file ends before the look-ahead does, it seeks to the position before zero,
or does not end. `currentEvent_spec` is the specification of `current_event` in a good state.
-/

namespace RvnSyncPoint

open LittleEndian Loop StreamableFile

/-- How `current_event` ends. -/
inductive Settled where
  /-- It does not end. -/
  | hang
  /-- An exception is thrown at the point `x`. -/
  | thrown (err : RuntimeError) (x : ℕ × SyncPoint) (T : Tape)
  /-- The reader stays on the last point `x` of the event. -/
  | stay (e : SyncEvent) (x : ℕ × SyncPoint) (T : Tape)
  /-- The reader is at the end of the file. -/
  | atEnd (e : SyncEvent)
  /-- The reader looked ahead to an event at the position `q`, and went back to the point before it. -/
  | back (e : SyncEvent) (q : ℕ)
  /-- The reader looked ahead and found no event, and sought the position before zero. -/
  | offEnd (e : SyncEvent)

/-- The event that `e` and the next one `e_next` are matched as. -/
def SyncEvent.merge (e e_next : SyncEvent) : SyncEvent :=
  { e_next with start_context := e.start_context }

namespace Tape

/-- Settling on an event that the end of the file cuts, in a file of `n` records. -/
def settleCut (n : ℕ) (e : SyncEvent) : Settled :=
  if e.withoutEffect then
    if e.mergesWith (lastEvent n) then .hang else .back e n
  else .atEnd e

/-- Settling on the complete event `e` that ends with the point `x`. -/
def settle (n : ℕ) (e : SyncEvent) (x : ℕ × SyncPoint) (T : Tape) : Settled :=
  if e.withoutEffect then
    match _h : fetchVmexit T with
    | .nothing => if e.mergesWith {} then .hang else .offEnd e
    | .cut e' => if e.mergesWith e' then settleCut n (e.merge e') else .back e e'.position
    | .malformed err y U => .thrown err y U
    | .complete e' y U =>
      if e.mergesWith e' then settle n (e.merge e') y U else .back e e'.position
  else .stay e x T
termination_by T.length
decreasing_by exact fetchVmexit_length ‹_›

/-- `current_event`, from a reader on the point `x` with `T` to come. -/
def current (n : ℕ) (x : ℕ × SyncPoint) (T : Tape) : Settled :=
  match fetch x T with
  | .nothing => if n = 1 then .atEnd (lastEvent 1) else .hang
  | .cut e => settleCut n e
  | .malformed err y U => .thrown err y U
  | .complete e y U => settle n e y U

section settle

variable {n : ℕ} {e e' : SyncEvent} {x y : ℕ × SyncPoint} {T U : Tape}

theorem settle_stay (he : e.withoutEffect = false) : settle n e x T = .stay e x T := by
  rw [settle, if_neg (by simp [he])]

variable (he : e.withoutEffect = true)
include he

theorem settle_nothing (h : fetchVmexit T = .nothing) :
    settle n e x T = if e.mergesWith {} then .hang else .offEnd e := by
  rw [settle, if_pos he]
  split <;> simp_all

theorem settle_cut (h : fetchVmexit T = .cut e') :
    settle n e x T =
      if e.mergesWith e' then settleCut n (e.merge e') else .back e e'.position := by
  rw [settle, if_pos he]
  split <;> simp_all

theorem settle_malformed {err : RuntimeError} (h : fetchVmexit T = .malformed err y U) :
    settle n e x T = .thrown err y U := by
  rw [settle, if_pos he]
  split <;> simp_all

theorem settle_complete (h : fetchVmexit T = .complete e' y U) :
    settle n e x T =
      if e.mergesWith e' then settle n (e.merge e') y U else .back e e'.position := by
  rw [settle, if_pos he]
  split <;> simp_all

theorem settle_back (h : fetchVmexit T = .complete e' y U) (hm : e.mergesWith e' = false) :
    settle n e x T = .back e e'.position := by
  rw [settle_complete he h, if_neg (by simp [hm])]

theorem settle_merge (h : fetchVmexit T = .complete e' y U) (hm : e.mergesWith e' = true) :
    settle n e x T = settle n (e.merge e') y U := by
  rw [settle_complete he h, if_pos hm]

end settle

/-- Induction along settling: a case for each way to leave the loop, and one for a merge, which goes on
with what the next event leaves of the tape. -/
theorem settle_induction {motive : SyncEvent → ℕ × SyncPoint → Tape → Prop}
    (stay : ∀ e x T, e.withoutEffect = false → motive e x T)
    (nothing : ∀ e x T, e.withoutEffect = true → fetchVmexit T = .nothing → motive e x T)
    (malformed : ∀ e x T err y U, e.withoutEffect = true → fetchVmexit T = .malformed err y U →
      motive e x T)
    (cut : ∀ e x T e', e.withoutEffect = true → fetchVmexit T = .cut e' → motive e x T)
    (back : ∀ e x T e' y U, e.withoutEffect = true → fetchVmexit T = .complete e' y U →
      e.mergesWith e' = false → motive e x T)
    (merge : ∀ e x T e' y U, e.withoutEffect = true → fetchVmexit T = .complete e' y U →
      e.mergesWith e' = true → motive (e.merge e') y U → motive e x T)
    (e : SyncEvent) (x : ℕ × SyncPoint) (T : Tape) : motive e x T := by
  -- A merge goes on with a shorter tape.
  induction hk : T.length using Nat.strongRecOn generalizing e x T with
  | ind k ih =>
    cases he : e.withoutEffect with
    | false => exact stay e x T he
    | true =>
      cases hfetch : fetchVmexit T with
      | nothing => exact nothing e x T he hfetch
      | malformed err y U => exact malformed e x T err y U he hfetch
      | cut e' => exact cut e x T e' he hfetch
      | complete e' y U =>
        have hlen := fetchVmexit_length hfetch
        cases hm : e.mergesWith e' with
        | false => exact back e x T e' y U he hfetch hm
        | true => exact merge e x T e' y U he hfetch hm (ih _ (hk ▸ hlen) _ y U rfl)

/-- An event at the position 1 has an effect: it is not looked past. -/
theorem startUnknown_stays {e : SyncEvent} {x : ℕ × SyncPoint}
    (hmissing : (!x.2.isVmexit && x.1 == 1) = true) (hpos : e.position = x.1) :
    e.withoutEffect = false := by
  have hx1 : x.1 = 1 := by simpa using (Bool.and_eq_true_iff.mp hmissing).2
  simp [SyncEvent.withoutEffect, hpos, hx1]

/-- Settling where the VMExit of the first record is missing: without a look-ahead. -/
theorem current_missing {n : ℕ} {x : ℕ × SyncPoint} {T : Tape}
    (hmissing : (!x.2.isVmexit && x.1 == 1) = true) :
    (∃ e, body (.startUnknown x.1) x T = .cut e ∧ current n x T = .atEnd e) ∨
    (∃ err y U, body (.startUnknown x.1) x T = .malformed err y U ∧
      current n x T = .thrown err y U) ∨
    ∃ e y U, body (.startUnknown x.1) x T = .complete e y U ∧ current n x T = .stay e y U := by
  unfold current
  rw [fetch, if_pos hmissing]
  cases hbody : body (.startUnknown x.1) x T with
  | nothing => exact (body_not_nothing hbody).elim
  | cut e =>
    have he := startUnknown_stays hmissing (body_cut hbody).1.position
    exact .inl ⟨e, rfl, by simp [settleCut, he]⟩
  | malformed err y U => exact .inr (.inl ⟨err, y, U, rfl, rfl⟩)
  | complete e y U =>
    obtain ⟨mid, -, -, hends⟩ := body_complete hbody
    exact .inr (.inr ⟨e, y, U, rfl, settle_stay (startUnknown_stays hmissing hends.position)⟩)

end Tape

/-! ## The loop that merges events -/

/-- The outcome of the loop of `current_event`, reached from `f`, and the reader that it leaves, are as
settling says. -/
inductive Settled.Gives (R : Recording) (f : SyncFile) :
    Settled → Option (Outcome SyncFile SyncEvent) → Prop
  | hang : Gives R f .hang none
  | thrown {g : SyncFile} {err : RuntimeError} {x : ℕ × SyncPoint} {T : Tape}
    (h : R.After g (x :: T)) (hc : SameCache f g) : Gives R f (.thrown err x T) (some (.thrown err g))
  | stay {g : SyncFile} {e : SyncEvent} {x : ℕ × SyncPoint} {T : Tape}
    (h : R.After g (x :: T)) (hc : SameCache f g) : Gives R f (.stay e x T) (some (.returned e g))
  | atEnd {g : SyncFile} {e : SyncEvent} (h : R.After g []) (hc : SameCache f g) :
    Gives R f (.atEnd e) (some (.returned e g))
  | back {g : SyncFile} {e : SyncEvent} {q : ℕ} (h : Reading R g) (hpos : g.position + 1 = q)
    (hpoint : R.IsPoint g.position g.current)
    (hcur : ∃ data, g.current = (R.record g.position).point {} data)
    (hc : g.current_event = f.current_event) : Gives R f (.back e q) (some (.returned e g))
  | offEnd {g : SyncFile} {e : SyncEvent} (h : Attached R g)
    (hpos : R.PlainHeader → g.position = 2 ^ 64 - 1) :
    Gives R f (.offEnd e) (some (.returned e g))

theorem Settled.Gives.of_sameCache {R : Recording} {f g : SyncFile} {x : Settled}
    {o : Option (Outcome SyncFile SyncEvent)} (h : x.Gives R g o) (hc : SameCache f g) :
    x.Gives R f o := by
  cases h with
  | hang => exact .hang
  | thrown h hc' => exact .thrown h (hc.trans hc')
  | stay h hc' => exact .stay h (hc.trans hc')
  | atEnd h hc' => exact .atEnd h (hc.trans hc')
  | back h hpos hpoint hcur hev => exact .back h hpos hpoint hcur (hev.trans hc.1)
  | offEnd h hpos => exact .offEnd h hpos

/-- The last event of a file starts in the context of zeros that a default event has. -/
theorem SyncEvent.mergesWith_lastEvent (e : SyncEvent) (n : ℕ) :
    e.mergesWith (lastEvent n) = e.mergesWith {} := rfl

theorem SyncEvent.withoutEffect_iff (e : SyncEvent) : e.withoutEffect = true ↔
    e.position ≠ 1 ∧ e.has_interrupt = false ∧ e.start_context.values = e.new_context.values := by
  simp [withoutEffect, Context.areValuesEquivalent_iff, and_assoc]

theorem SyncEvent.mergesWith_iff (e e_next : SyncEvent) : e.mergesWith e_next = true ↔
    e.new_context.values = e_next.start_context.values ∧ e.start_rip = e_next.start_rip ∧
      e.is_instruction_emulation = false := by
  simp [mergesWith, Context.areValuesEquivalent_iff, and_assoc]

section

variable {R : Recording} {f : SyncFile} {e : SyncEvent} {x y : ℕ × SyncPoint} {T U : Tape}

/-- At the end of the file, an event of zeros merges with the last event for ever. -/
theorem mergePass_hang (h : Ended R f) (hn : f.position ≠ 1) (he : e.withoutEffect = true)
    (hm : e.mergesWith {} = true) : loop SyncFile.mergePass (e, f) = none := by
  refine loop_diverges (fun s => Ended R s.2 ∧ s.2.position ≠ 1 ∧ s.1.withoutEffect = true ∧
    s.1.mergesWith {} = true) ?_ (e, f) ⟨h, hn, he, hm⟩
  rintro ⟨e, f⟩ ⟨h, hn, he, hm⟩
  refine ⟨(e.merge (lastEvent f.position), f), ?_, h, hn, ?_, ?_⟩
  · simp only [SyncFile.mergePass, he, if_true, fetchNewEvent_ended h, Option.bind_eq_bind,
      Option.bind_some, SyncEvent.mergesWith_lastEvent, hm]
    rfl
  · obtain ⟨-, -, hvalues⟩ := e.withoutEffect_iff.mp he
    obtain ⟨hzero, -, -⟩ := (e.mergesWith_iff {}).mp hm
    exact (SyncEvent.withoutEffect_iff _).mpr ⟨hn, rfl, hvalues.trans hzero⟩
  · exact (SyncEvent.mergesWith_iff _ _).mpr ⟨rfl, rfl, rfl⟩

/-- An event that has an effect leaves the loop. -/
theorem mergePass_stay (he : e.withoutEffect = false) :
    loop SyncFile.mergePass (e, f) = some (.returned e f) :=
  loop_leave (by simp [SyncFile.mergePass, he])

/-- A pass of the loop that looks ahead to an event to be merged. -/
theorem mergePass_merge {e' : SyncEvent} {g : SyncFile} (he : e.withoutEffect = true)
    (hfetch : f.fetchNewEvent = some (.returned e' g)) (hm : e.mergesWith e' = true) :
    loop SyncFile.mergePass (e, f) = loop SyncFile.mergePass (e.merge e', g) :=
  loop_again (by simp [SyncFile.mergePass, he, hfetch, hm]; rfl)

/-- A pass of the loop that looks ahead to an event of its own, and goes back. -/
theorem mergePass_seek {e' : SyncEvent} {g k : SyncFile} (he : e.withoutEffect = true)
    (hfetch : f.fetchNewEvent = some (.returned e' g)) (hm : e.mergesWith e' = false)
    (hseek : g.seek (pred64 e'.position) = some k) :
    loop SyncFile.mergePass (e, f) = some (.returned e k) :=
  loop_leave (by simp [SyncFile.mergePass, he, hfetch, hm, hseek])

/-- The seek back from an event at the position `q` of the recording. -/
theorem seek_back (h : Attached R f) (hc : f.current_event.is_valid = false) {q : ℕ} (h2 : 2 ≤ q)
    (hq : q ≤ R.count) : ∃ g, f.seek (pred64 q) = some g ∧ Settled.Gives R f (.back e q)
      (some (.returned e g)) := by
  have hcount := R.count_lt
  have hpred : pred64 q = q - 1 := by
    unfold pred64
    omega
  obtain ⟨g, hg, hread, hpos, hcur, -, hev, -⟩ := seek_record h (q := q - 1) (by omega) (by omega)
  have hdrop : f.current_event.dropped = f.current_event := by simp [SyncEvent.dropped, hc]
  refine ⟨g, by rw [hpred, hg], .back hread (by omega) ?_ ⟨_, hpos ▸ hcur⟩ (hev.trans hdrop)⟩
  rw [hpos]
  exact ⟨by omega, by omega, _, _, hcur⟩

/-- Settling on an event that the end of the file cuts. -/
theorem settleCut_spec (h : R.After f []) (hc : f.current_event.is_valid = false)
    (h2 : e.withoutEffect = true → 2 ≤ R.count) :
    (Tape.settleCut R.count e).Gives R f (loop SyncFile.mergePass (e, f)) := by
  unfold Tape.settleCut
  have hfetch := fetchNewEvent_ended h.1
  rw [h.2] at hfetch
  split_ifs with he hm
  · have h2 := h2 he
    rw [mergePass_hang h.1 (by rw [h.2]; omega) he hm]
    exact .hang
  · obtain ⟨g, hg, hgives⟩ := seek_back (e := e) h.attached hc (h2 he) le_rfl
    rw [mergePass_seek he hfetch (by simpa using hm) hg]
    exact hgives
  · rw [mergePass_stay (by simpa using he)]
    exact .atEnd h .rfl

/-- The points to come are records of the file after the one that the reader stands on. -/
theorem Recording.After.mem_tape (h : R.After f (x :: T)) (hy : y ∈ T) :
    x.1 < y.1 ∧ R.IsPoint y.1 y.2 := by
  obtain ⟨-, hpos, -, rfl⟩ := h
  exact hpos ▸ Recording.mem_tape hy

/-- Looking ahead from the end of an event fetches the next one. -/
theorem lookAhead_spec (h : R.After f (x :: T)) (hc : f.current_event.is_valid = false)
    (hx : x.2.isVmexit = false) (h2 : 2 ≤ x.1) :
    ∃ o, f.fetchNewEvent = some o ∧ (Tape.fetchVmexit T).Gives R f o := by
  obtain ⟨o, ho, hgives⟩ := fetchNewEvent_spec h hc
  rw [Tape.fetch_eq hx (by omega)] at hgives
  exact ⟨o, ho, hgives⟩

/-- The look-ahead finds no event. -/
theorem settle_spec_nothing (h : R.After f (x :: T)) (he : e.withoutEffect = true) (h2 : 2 ≤ x.1)
    {g : SyncFile} (hfetch : f.fetchNewEvent = some (.returned {} g)) (hend : R.After g []) :
    Settled.Gives R f (if e.mergesWith {} then .hang else .offEnd e)
      (loop SyncFile.mergePass (e, f)) := by
  have hcount : 2 ≤ R.count := by
    have hle := h.1.position_le
    rw [h.2.1] at hle
    omega
  split_ifs with hm
  · obtain ⟨-, -, hvalues⟩ := e.withoutEffect_iff.mp he
    obtain ⟨hzero, -, -⟩ := (e.mergesWith_iff {}).mp hm
    have hmerged : (e.merge {}).withoutEffect = true :=
      (SyncEvent.withoutEffect_iff _).mpr ⟨by simp [SyncEvent.merge], rfl, hvalues.trans hzero⟩
    rw [mergePass_merge he hfetch hm, mergePass_hang hend.1 (by rw [hend.2]; omega) hmerged
      ((SyncEvent.mergesWith_iff _ _).mpr ⟨rfl, rfl, rfl⟩)]
    exact .hang
  · obtain ⟨k, hk, hatt, hpos⟩ := seek_wrapped hend.attached (q := pred64 0) rfl
    rw [mergePass_seek he hfetch (by simpa using hm) hk]
    exact .offEnd hatt hpos

/-- The look-ahead finds an event of its own. -/
theorem settle_spec_back (hc : f.current_event.is_valid = false) (he : e.withoutEffect = true)
    {e' : SyncEvent} {g : SyncFile} (hfetch : f.fetchNewEvent = some (.returned e' g))
    (hatt : Attached R g) (hsame : SameCache f g) (hm : e.mergesWith e' = false)
    (h2 : 2 ≤ e'.position) (hle : e'.position ≤ R.count) :
    Settled.Gives R f (.back e e'.position) (loop SyncFile.mergePass (e, f)) := by
  obtain ⟨k, hk, hback⟩ := seek_back (e := e) hatt (hsame.1 ▸ hc) h2 hle
  rw [mergePass_seek he hfetch hm hk]
  exact hback.of_sameCache hsame

/-- The specification of the loop of `current_event` on a complete event. The induction is along
settling, for whichever reader the merges have led to. -/
theorem settle_spec (h : R.After f (x :: T)) (hc : f.current_event.is_valid = false)
    (hx : x.2.isVmexit = false) (h2 : e.withoutEffect = true → 2 ≤ x.1) :
    (Tape.settle R.count e x T).Gives R f (loop SyncFile.mergePass (e, f)) := by
  induction e, x, T using Tape.settle_induction generalizing f with
  | stay e x T he =>
    rw [mergePass_stay he, Tape.settle_stay he]
    exact .stay h .rfl
  | nothing e x T he hfetch =>
    have h2 := h2 he
    obtain ⟨o, ho, hgives⟩ := lookAhead_spec h hc hx h2
    rw [hfetch] at hgives
    cases hgives with
    | nothing hend hsame =>
      rw [Tape.settle_nothing he hfetch]
      exact settle_spec_nothing h he h2 ho hend
  | malformed e x T err y U he hfetch =>
    have h2 := h2 he
    obtain ⟨o, ho, hgives⟩ := lookAhead_spec h hc hx h2
    rw [hfetch] at hgives
    cases hgives with
    | @malformed g _ _ _ hafter hsame =>
      rw [Tape.settle_malformed he hfetch]
      rw [loop_leave (r := .thrown err g) (by simp [SyncFile.mergePass, he, ho])]
      exact .thrown hafter hsame
  | cut e x T e' he hfetch =>
    have h2 := h2 he
    obtain ⟨o, ho, hgives⟩ := lookAhead_spec h hc hx h2
    rw [hfetch] at hgives
    -- The event that is cut starts at a record of the file.
    obtain ⟨pre, v, mid, hT, -, -, hcut, -⟩ := Tape.fetchVmexit_cut hfetch
    have hpos : e'.position = v.1 := hcut.position
    obtain ⟨hlt, -, hle, -⟩ := h.mem_tape (y := v) (by simp [hT])
    cases hgives with
    | cut hend hsame =>
      rw [Tape.settle_cut he hfetch]
      split_ifs with hm
      · rw [mergePass_merge he ho hm]
        exact (settleCut_spec hend (hsame.1 ▸ hc) (fun _ => by omega)).of_sameCache hsame
      · exact settle_spec_back hc he ho hend.attached hsame (by simpa using hm) (by omega) (by omega)
  | back e x T e' y U he hfetch hm =>
    have h2 := h2 he
    obtain ⟨o, ho, hgives⟩ := lookAhead_spec h hc hx h2
    rw [hfetch] at hgives
    obtain ⟨pre, v, mid, hT, -, -, -, hends⟩ := Tape.fetchVmexit_complete hfetch
    have hpos : e'.position = v.1 := hends.position
    obtain ⟨hlt, -, hle, -⟩ := h.mem_tape (y := v) (by simp [hT])
    cases hgives with
    | complete hafter hsame =>
      rw [Tape.settle_back he hfetch hm]
      exact settle_spec_back hc he ho hafter.attached hsame hm (by omega) (by omega)
  | merge e x T e' y U he hfetch hm ih =>
    have h2 := h2 he
    obtain ⟨o, ho, hgives⟩ := lookAhead_spec h hc hx h2
    rw [hfetch] at hgives
    obtain ⟨pre, v, mid, hT, -, -, hy, hends⟩ := Tape.fetchVmexit_complete hfetch
    obtain ⟨hlt, -⟩ := h.mem_tape (y := y) (by simp [hT])
    cases hgives with
    | complete hafter hsame =>
      rw [Tape.settle_merge he hfetch hm, mergePass_merge he ho hm]
      have hmerged := ih hafter (hsame.1 ▸ hc) (Tape.isVmexit_of_isVmenter hy) (fun _ => by omega)
      exact hmerged.of_sameCache hsame

/-! ## `current_event` -/

/-- The points from the one that the reader stands on are in increasing order. -/
theorem Recording.After.sorted (h : R.After f (x :: T)) :
    List.Pairwise (fun y z : ℕ × SyncPoint => y.1 < z.1) (x :: T) := by
  refine List.pairwise_cons.mpr ⟨fun y hy => (h.mem_tape hy).1, ?_⟩
  obtain ⟨-, -, -, rfl⟩ := h
  exact R.tape_sorted f

/-- The VMExit of the next event is a record of the file, if the reader stands on one or on no
VMExit. -/
theorem Recording.After.vmexit_pos (h : R.After f (x :: T)) (hx : x.2.isVmexit = true → 1 ≤ x.1)
    (hy : y ∈ x :: T) (hv : y.2.isVmexit = true) : 1 ≤ y.1 ∧ y.1 ≤ R.count := by
  rcases List.mem_cons.mp hy with rfl | hy
  · have hle := h.1.position_le
    rw [h.2.1] at hle
    exact ⟨hx hv, hle⟩
  · obtain ⟨-, h1, hle, -⟩ := h.mem_tape hy
    exact ⟨h1, hle⟩

/-- In a file of one record, the last event is at the position 1, and is returned. -/
theorem mergePass_single (h : Ended R f) (h1 : f.position = 1) :
    loop SyncFile.mergePass ({}, f) = some (.returned (lastEvent 1) f) := by
  have hfetch := fetchNewEvent_ended h
  rw [h1] at hfetch
  rw [mergePass_merge (by rfl) hfetch (by rfl)]
  exact mergePass_stay (by rfl)

/-- Stores the event that is returned in the cache. -/
def SyncFile.keep : Outcome SyncFile SyncEvent → Outcome SyncFile SyncEvent
  | .thrown err f => .thrown err f
  | .returned event f => .returned event { f with current_event := event }

/-- Without a cached event, `current_event` fetches one and merges others with it. -/
theorem currentEvent_of_fetch (heof : f.eof = false) (hc : f.current_event.is_valid = false)
    {g : SyncFile} (hfetch : f.fetchNewEvent = some (.returned e g)) :
    f.currentEvent = (loop SyncFile.mergePass (e, g)).map SyncFile.keep := by
  unfold SyncFile.currentEvent
  simp only [heof, hc, Bool.or_self, Bool.false_eq_true, if_false, hfetch, Option.bind_eq_bind,
    Option.bind_some]
  cases loop SyncFile.mergePass (e, g) with
  | none => rfl
  | some o =>
    cases o with
    | thrown err k => rfl
    | returned e k => rfl

/-- A call that throws in its first fetch. -/
theorem currentEvent_of_thrown (heof : f.eof = false) (hc : f.current_event.is_valid = false)
    {err : RuntimeError} {g : SyncFile} (hfetch : f.fetchNewEvent = some (.thrown err g)) :
    f.currentEvent = some (.thrown err g) := by
  simp [SyncFile.currentEvent, heof, hc, hfetch]

/-- The specification of `current_event` where the VMExit of the first record is missing. The event is
at the position 1, and does not look ahead. -/
theorem currentEvent_spec_missing (h : R.After f (x :: T)) (hc : f.current_event.is_valid = false)
    (hmissing : (!x.2.isVmexit && x.1 == 1) = true) :
    ∃ o, f.currentEvent = o.map SyncFile.keep ∧ (Tape.current R.count x T).Gives R f o := by
  obtain ⟨o, ho, hgives⟩ := fetchNewEvent_spec h hc
  have heof := h.1.eof
  rw [Tape.fetch, if_pos hmissing] at hgives
  -- An event with an unknown start has an effect, so the loop that merges leaves at once.
  rcases Tape.current_missing hmissing with ⟨e', hbody, hcurrent⟩ | ⟨err, y, U, hbody, hcurrent⟩ |
    ⟨e', y, U, hbody, hcurrent⟩
  · rw [hbody] at hgives
    rw [hcurrent]
    cases hgives with
    | @cut g _ hend hsame =>
      have he' := Tape.startUnknown_stays hmissing (Tape.body_cut hbody).1.position
      refine ⟨some (.returned e' g), ?_, .atEnd hend hsame⟩
      rw [currentEvent_of_fetch heof hc ho, mergePass_stay he']
  · rw [hbody] at hgives
    rw [hcurrent]
    cases hgives with
    | @malformed g _ _ _ hafter hsame =>
      exact ⟨some (.thrown err g), currentEvent_of_thrown heof hc ho, .thrown hafter hsame⟩
  · rw [hbody] at hgives
    rw [hcurrent]
    cases hgives with
    | @complete g _ _ _ hafter hsame =>
      obtain ⟨mid, -, -, hends⟩ := Tape.body_complete hbody
      have he' := Tape.startUnknown_stays hmissing hends.position
      refine ⟨some (.returned e' g), ?_, .stay hafter hsame⟩
      rw [currentEvent_of_fetch heof hc ho, mergePass_stay he']

/-- The specification of `current_event` without a cached event, in a good state. -/
theorem currentEvent_spec (h : R.After f (x :: T)) (hc : f.current_event.is_valid = false)
    (hx : x.2.isVmexit = true → 1 ≤ x.1) :
    ∃ o, f.currentEvent = o.map SyncFile.keep ∧ (Tape.current R.count x T).Gives R f o := by
  by_cases hmissing : (!x.2.isVmexit && x.1 == 1) = true
  · exact currentEvent_spec_missing h hc hmissing
  obtain ⟨o, ho, hgives⟩ := fetchNewEvent_spec h hc
  have heof := h.1.eof
  unfold Tape.current
  rw [Tape.fetch, if_neg hmissing] at hgives ⊢
  generalize hfetch : Tape.fetchVmexit (x :: T) = z at hgives
  cases hgives with
  | @nothing g hend hsame =>
    refine ⟨loop SyncFile.mergePass ({}, g), currentEvent_of_fetch heof hc ho, ?_⟩
    dsimp only
    split_ifs with hn
    · rw [mergePass_single hend.1 (hend.2.trans hn)]
      exact .atEnd hend hsame
    · rw [mergePass_hang hend.1 (by rw [hend.2]; exact hn) (by rfl) (by rfl)]
      exact .hang
  | @malformed g err y U hafter hsame =>
    exact ⟨some (.thrown err g), currentEvent_of_thrown heof hc ho, .thrown hafter hsame⟩
  | @cut g e' hend hsame =>
    obtain ⟨pre, v, mid, hT, -, hv, hcut, -⟩ := Tape.fetchVmexit_cut hfetch
    have hpos : e'.position = v.1 := hcut.position
    have hvpos := h.vmexit_pos hx (y := v) (by simp [hT]) hv
    refine ⟨loop SyncFile.mergePass (e', g), currentEvent_of_fetch heof hc ho, ?_⟩
    refine (settleCut_spec hend (hsame.1 ▸ hc) fun he => ?_).of_sameCache hsame
    obtain ⟨hne, -⟩ := (SyncEvent.withoutEffect_iff _).mp he
    omega
  | @complete g e' y U hafter hsame =>
    obtain ⟨pre, v, mid, hT, -, hv, hy, hends⟩ := Tape.fetchVmexit_complete hfetch
    have hpos : e'.position = v.1 := hends.position
    have hvpos := h.vmexit_pos hx (y := v) (by simp [hT]) hv
    have hlt : v.1 < y.1 := by
      have hsorted := h.sorted
      rw [hT, List.pairwise_append, List.pairwise_cons] at hsorted
      exact hsorted.2.1.1 y (by simp)
    refine ⟨loop SyncFile.mergePass (e', g), currentEvent_of_fetch heof hc ho, ?_⟩
    -- An event without effect is not at the position 1, so its VMEnter is a later record.
    refine (settle_spec hafter (hsame.1 ▸ hc) (Tape.isVmexit_of_isVmenter hy)
      fun he => ?_).of_sameCache hsame
    obtain ⟨hne, -⟩ := (SyncEvent.withoutEffect_iff _).mp he
    omega

end

end RvnSyncPoint
