import RvnSyncPoint.Sync.Kept
import RvnSyncPoint.Sync.Opened
import RvnSyncPoint.Sync.Stream

/-!
# The grammar of events

What `fetch_new_event` accepts on a VMExit: at most two reports of one interrupt and a VMEnter, for a
complete event, and at most two reports of one interrupt and then nothing, for one that the file ends
in. On every other sequence of records it throws (`fetchNewEvent_grammar`). `Groups` shows that what is
in the grammar is accepted; here is the converse.

The reader may come from any seeks. Where one leaves the file, or its offset wraps around, the current
point is not that of a record until the position and the cursor agree again (`Moves.placed`).
-/

namespace RvnSyncPoint

open LittleEndian Loop StreamableFile

namespace Tape

/-- The points `S` after the VMExit `x` begin with the interrupts `is` and the VMEnter `n` of a complete
and sane event, and `U` is to come. -/
structure Completes (x : ℕ × SyncPoint) (S is : Tape) (n : ℕ × SyncPoint) (U : Tape) : Prop where
  points : S = is ++ n :: U
  interrupts : is.Interrupts (some n)
  vmenter : n.2.isVmenter = true
  sane : (Group.whole x is n).event.checkSanity = .ok ()

section

variable {e e' : SyncEvent} {isp : SyncPoint} {x y n : ℕ × SyncPoint} {S T U : Tape}

/-- An event that ends on a point passed the checks there. -/
theorem vmenter_sound (h : vmenter e x T = .complete e' y U) :
    y = x ∧ U = T ∧ y.2.isVmenter = true ∧ e' = e.finished y.2 ∧ e'.checkSanity = .ok () := by
  obtain ⟨rfl, rfl, hv, rfl⟩ := vmenter_complete h
  refine ⟨rfl, rfl, hv, rfl, ?_⟩
  unfold vmenter at h
  cases hfin : e.finish y.2 y.1 with
  | error err =>
    rw [hfin] at h
    cases h
  | ok e'' => exact ((SyncEvent.finish_ok_iff e y.2 y.1).mp ⟨_, hfin⟩).2

theorem afterInterrupt_sound (h : afterInterrupt e isp x T = .complete e' y U) :
    x.2.isEquivalent isp = true ∧ y = x ∧ U = T ∧ y.2.isVmenter = true ∧
      e' = (e.addData y.2).finished y.2 ∧ e'.checkSanity = .ok () := by
  unfold afterInterrupt at h
  split_ifs at h with hequiv
  obtain ⟨rfl, hend⟩ := vmenter_sound h
  exact ⟨by simpa using hequiv, rfl, hend⟩

/-- An event with an interrupt is complete only if its points fit together. -/
theorem interrupt_sound (hx : x.2.isInterrupt = true) (h : interrupt e x T = .complete e' y U) :
    ∃ is, x :: T = x :: is ++ y :: U ∧ Interrupts (x :: is) (some y) ∧ y.2.isVmenter = true ∧
      e' = ((e.interrupt x.2).addData y.2).finished y.2 ∧ e'.checkSanity = .ok () := by
  match T, h with
  | w :: V, h =>
    unfold interrupt at h
    dsimp only at h
    split_ifs at h with hint hequiv
    · match V, h with
      | z :: V, h =>
        obtain ⟨hz, rfl, rfl, hend⟩ := afterInterrupt_sound h
        have hsame : w.2.isEquivalent x.2 = true := by simpa using hequiv
        exact ⟨[w], rfl, ⟨hx, hint, hsame, fun n hn => by cases hn; exact hz⟩, hend⟩
    · obtain ⟨hz, rfl, rfl, hend⟩ := afterInterrupt_sound h
      exact ⟨[], rfl, ⟨hx, fun n hn => by cases hn; exact hz⟩, hend⟩

theorem body_sound (h : body e x T = .complete e' y U) :
    ∃ is, x :: T = is ++ y :: U ∧ Interrupts is (some y) ∧ y.2.isVmenter = true ∧
      e' = ((interrupted e is).addData y.2).finished y.2 ∧ e'.checkSanity = .ok () := by
  unfold body at h
  split_ifs at h with hint
  · obtain ⟨is, hpoints, his, hend⟩ := interrupt_sound hint h
    exact ⟨x :: is, hpoints, his, hend⟩
  · obtain ⟨rfl, rfl, hv, rfl, hsane⟩ := vmenter_sound h
    -- The data of the VMEnter is the only one there is.
    exact ⟨[], rfl, trivial, hv, rfl, hsane⟩

/-- The file ends in an event only after at most two reports of one interrupt. -/
theorem body_cut_sound (h : body e x T = .cut e') :
    Interrupts (x :: T) none ∧ e' = (interrupted e (x :: T)).last := by
  unfold body at h
  split_ifs at h with hint
  · match T, h with
    | [], h =>
      cases h
      exact ⟨⟨hint, fun n hn => by cases hn⟩, rfl⟩
    | w :: V, h =>
      unfold interrupt at h
      dsimp only at h
      split_ifs at h with hint' hequiv
      · match V, h with
        | [], h =>
          cases h
          exact ⟨⟨hint, hint', by simpa using hequiv, fun n hn => by cases hn⟩, rfl⟩
        | z :: V, h => exact (afterInterrupt_not_cut h).elim
      · exact (afterInterrupt_not_cut h).elim
  · exact (vmenter_not_cut h).elim

/-! ## From a VMExit on -/

/-- From the VMExit `x`, what is accepted as a complete event is what completes it. -/
theorem atVmexit_complete_iff : atVmexit (x :: S) = .complete e n U ↔
    ∃ is, Completes x S is n U ∧ e = (Group.whole x is n).event := by
  constructor
  · intro h
    match S, h with
    | y :: S, h =>
      obtain ⟨is, hpoints, his, hn, rfl, hsane⟩ := body_sound h
      rw [← event_whole] at hsane ⊢
      exact ⟨is, ⟨hpoints, his, hn, hsane⟩, rfl⟩
  · rintro ⟨is, ⟨hpoints, his, hn, hsane⟩, rfl⟩
    obtain ⟨y, V, rfl⟩ : ∃ y V, S = y :: V := by
      cases is with
      | nil => exact ⟨_, _, hpoints⟩
      | cons i is => exact ⟨_, _, hpoints⟩
    rw [event_whole] at hsane ⊢
    exact body_eq his hn hpoints hsane

/-- What is accepted as an event that the file ends in is at most two reports of one interrupt. -/
theorem atVmexit_cut_iff : atVmexit (x :: S) = .cut e ↔
    S.Interrupts none ∧ e = (Group.cut x S).event := by
  rw [event_cut]
  cases S with
  | nil =>
    constructor
    · intro h
      cases h
      exact ⟨trivial, rfl⟩
    · rintro ⟨-, rfl⟩
      rfl
  | cons y S =>
    constructor
    · exact body_cut_sound
    · rintro ⟨his, rfl⟩
      exact body_cut_eq his

theorem atVmexit_ne_nothing : atVmexit (x :: S) ≠ .nothing := by
  intro h
  match S, h with
  | y :: S, h => exact body_not_nothing h

end

end Tape

/-! ## Readers that are moved -/

/-- The states that a reader `f` is brought into by `next()` and by the private `seek()`, to any
positions. -/
inductive Moves (f : SyncFile) : SyncFile → Prop
  | start : Moves f f
  | next {g g' : SyncFile} (hmoves : Moves f g) (hg : g.next = some g') : Moves f g'
  | seek {g g' : SyncFile} (q : ℕ) (hmoves : Moves f g) (hg : g.seek q = some g') : Moves f g'

/-- Where such a reader is: its cursor stands at the offset of its position, which may have wrapped
around; or it has met the end of the file, or a seek failed, and its point is not that of the record at
its position. -/
structure Placed (R : Recording) (f : SyncFile) : Prop where
  alone : AttachedAlone R f
  event : f.current_event.is_valid = false
  place : (∃ o, f.file = openAt R.content o ∧ o = R.offset f.position % 2 ^ 64) ∨
    (f.eof = true ∨ ∃ o, f.file = failedAt R.content o) ∧
      (f.current.tsc = 0 ∨ R.count < f.position)

section

variable {R : Recording} {f f₀ g : SyncFile} {x : ℕ × SyncPoint} {S : Tape}

/-- On the point of the record at its position, the reader is in a good state. -/
theorem Placed.reading (h : Placed R f) (hpoint : R.IsPoint f.position f.current) : Reading R f := by
  have hle : f.position ≤ R.count := hpoint.2.1
  rcases h.place with ⟨o, hfile, rfl⟩ | ⟨-, htsc | hlt⟩
  · rw [Nat.mod_eq_of_lt ((R.offset_lt hle).trans (by norm_num))] at hfile
    exact ⟨h.alone.1, hfile, hle⟩
  · exact absurd htsc hpoint.tsc
  · exact absurd hlt (not_lt.mpr hle)

/-- The offset of the next position, where both wrap around. -/
theorem Recording.offset_succ_mod (R : Recording) (p : ℕ) :
    R.offset ((p + 1) % 2 ^ 64) % 2 ^ 64 = (R.offset p % 2 ^ 64 + R.record_size.toNat) % 2 ^ 64 := by
  have hmod : R.offset ((p + 1) % 2 ^ 64) ≡ R.offset (p + 1) [MOD 2 ^ 64] :=
    Nat.ModEq.add_left _ ((Nat.mod_modEq (p + 1) (2 ^ 64)).mul_left _)
  calc R.offset ((p + 1) % 2 ^ 64) % 2 ^ 64 = R.offset (p + 1) % 2 ^ 64 := hmod
    _ = (R.offset p + R.record_size.toNat) % 2 ^ 64 := by rw [R.offset_succ]
    _ = (R.offset p % 2 ^ 64 + R.record_size.toNat) % 2 ^ 64 := by rw [Nat.mod_add_mod]

theorem Placed.readPass (h : Placed R f) (hpass : f.readPass = some g) (heof : f.eof = false) :
    Placed R g := by
  obtain ⟨-, -, -, hevent⟩ := readPass_frame hpass
  have hatt := h.alone.1
  have halone : AttachedAlone R g := by
    obtain ⟨k, hk, hkept⟩ := h.alone.readPass noData_keptByData
    rw [hpass] at hk
    cases hk
    exact hkept
  -- A record at the cursor is whole or cut; at the end nothing is read, and after a failure zeros.
  refine ⟨halone, by rw [hevent]; exact h.event, ?_⟩
  rcases h.place with ⟨o, hfile, ho⟩ | ⟨hend | ⟨o, hfile⟩, -⟩
  · rcases Nat.lt_or_ge R.content.length (o + f.record_size.toNat) with hcut | hle
    · -- The file ends in the record, which is not one of the recording.
      have hopened : Opened R.content f.record_size f :=
        ⟨hatt.on, hatt.version, rfl, by rw [hatt.record_size]; exact R.le_record_size, hatt.data⟩
      obtain ⟨k, hk, -, hkeof, hktsc⟩ := hopened.readPass_cut hfile hcut
      rw [hpass] at hk
      cases hk
      have hpos := readPass_position hpass
      rw [if_pos hkeof] at hpos
      refine .inr ⟨.inl hkeof, ?_⟩
      rw [hpos]
      rcases Nat.lt_or_ge R.count f.position with hlt | hcount
      · exact .inr hlt
      · -- After the last record there is nothing left to read.
        rw [Nat.mod_eq_of_lt ((R.offset_lt hcount).trans (by norm_num))] at ho
        have hoff : R.offset R.count < R.offset (f.position + 1) := by
          rw [R.offset_count, R.offset_succ, ← ho, ← hatt.record_size]
          exact hcut
        have heq : f.position = R.count := by
          by_contra hne
          exact absurd (R.offset_mono (show f.position + 1 ≤ R.count by omega)) (not_le.mpr hoff)
        rw [heq, R.offset_count] at ho
        refine .inl ?_
        rw [hktsc, ho, leAt_end 8 le_rfl]
        rfl
    · obtain ⟨k, hk, -, hkfile, hkpos, -⟩ := hatt.readPass hfile hle
      rw [hpass] at hk
      cases hk
      refine .inl ⟨_, hkfile, ?_⟩
      have hsize := R.size_lt
      rw [hkpos, R.offset_succ_mod, ← ho, ← hatt.record_size, Nat.mod_eq_of_lt (by omega)]
  · rw [hend] at heof
    cases heof
  · rw [readPass_failed hfile hatt.version] at hpass
    cases hpass
    exact .inr ⟨.inr ⟨o, hfile⟩, .inl rfl⟩

theorem Placed.next (h : Placed R f) (hg : f.next = some g) : Placed R g := by
  refine keptByNext_of_readPass (fun k l h heof hpass => h.readPass hpass heof) (fun k h => ?_) f g h hg
  unfold SyncFile.dropEvent
  rw [h.event]
  exact h

/-- The reader before the `next()` of a seek. -/
theorem Placed.placed (h : Placed R f) (q : ℕ) : Placed R (f.placed q) := by
  obtain ⟨⟨hatt, hd, -⟩, hevent, -⟩ := h
  refine ⟨⟨⟨hatt.on.seek_on _, hatt.version, hatt.record_size, hatt.sync_point_count, hatt.data⟩, hd,
    rfl⟩, hevent, ?_⟩
  have hoff : (HEADER_SIZE + f.record_size.toNat * (q - 1)) % 2 ^ 64 = R.offset (q - 1) % 2 ^ 64 := by
    rw [hatt.record_size]
    rfl
  rcases Nat.lt_or_ge (R.offset (q - 1) % 2 ^ 64) (2 ^ 63) with hlt | hge
  · refine .inl ⟨_, ?_, rfl⟩
    show f.file.seek _ = _
    rw [hoff]
    exact hatt.on.seek hlt
  · -- The stream takes the offset for a negative one.
    obtain ⟨o, ho⟩ := hatt.on.seek_neg hge (Nat.mod_lt _ (by norm_num))
    refine .inr ⟨.inr ⟨o, ?_⟩, .inl rfl⟩
    show f.file.seek _ = _
    rw [hoff]
    exact ho

theorem Placed.seek (h : Placed R f) {q : ℕ} (hg : f.seek q = some g) : Placed R g := by
  rcases Nat.eq_zero_or_pos q with rfl | hpos
  · obtain ⟨k, hk, hread, hkpos, hcur, hevent, -, hd⟩ := seek_zero h.alone.1
    rw [hg] at hk
    cases hk
    refine ⟨⟨hread.toAttached, by rw [hd]; exact h.alone.2.1, by rw [hcur]⟩,
      by rw [hevent]; exact h.event, .inl ⟨_, hread.file, ?_⟩⟩
    exact (Nat.mod_eq_of_lt ((R.offset_lt hread.position_le).trans (by norm_num))).symm
  · rw [seek_eq h.alone.1 (by omega)] at hg
    obtain ⟨k, hk, rfl⟩ := Option.map_eq_some_iff.mp hg
    obtain ⟨⟨⟨hon, hversion, hrs, hcount, hdata⟩, hd⟩, hevent, hplace⟩ := (h.placed q).next hk
    exact ⟨⟨⟨hon, hversion, hrs, hcount, hdata⟩, hd⟩, hevent, hplace⟩

theorem Loaded.placed (h : Loaded R none f) : Placed R f := by
  refine ⟨h.attachedAlone, by rw [h.fields.2.2.1], .inl ⟨_, h.reading.file, ?_⟩⟩
  exact (Nat.mod_eq_of_lt ((R.offset_lt h.reading.position_le).trans (by norm_num))).symm

theorem Moves.placed (hmoves : Moves f₀ f) (h₀ : Placed R f₀) : Placed R f := by
  induction hmoves with
  | start => exact h₀
  | next hmoves hg ih => exact ih.next hg
  | seek q hmoves hg ih => exact ih.seek hg

/-! ## The outcome of `fetch_new_event` -/

/-- The outcome `o` is what the grammar says of the VMExit `x` with the points `S` after it. -/
structure FollowsGrammar (R : Recording) (x : ℕ × SyncPoint) (S : Tape)
    (o : Outcome SyncFile SyncEvent) : Prop where
  complete_iff : (∃ e g, o = .returned e g ∧ e.is_valid = true ∧ e.is_last_event = false) ↔
    ∃ is n U, Tape.Completes x S is n U
  /-- The event is made of the points, and the reader stands on its VMEnter. -/
  complete : ∀ is n U, Tape.Completes x S is n U →
    ∃ g, o = .returned (Group.whole x is n).event g ∧ Reading R g ∧ g.position = n.1 ∧
      g.current.own = n.2
  last_iff : (∃ e g, o = .returned e g ∧ e.is_valid = true ∧ e.is_last_event = true) ↔
    S.Interrupts none
  throws_iff : (∃ err g, o = .thrown err g) ↔
    (¬ ∃ is n U, Tape.Completes x S is n U) ∧ ¬ S.Interrupts none

/-- A complete event is accepted where the points complete one. -/
theorem Tape.completes_iff : (∃ is n U, Tape.Completes x S is n U) ↔
    ∃ e n U, Tape.atVmexit (x :: S) = .complete e n U := by
  constructor
  · rintro ⟨is, n, U, h⟩
    exact ⟨_, n, U, Tape.atVmexit_complete_iff.mpr ⟨is, h, rfl⟩⟩
  · rintro ⟨e, n, U, h⟩
    obtain ⟨is, h, -⟩ := Tape.atVmexit_complete_iff.mp h
    exact ⟨is, n, U, h⟩

theorem Tape.interrupts_iff : S.Interrupts none ↔ ∃ e, Tape.atVmexit (x :: S) = .cut e := by
  constructor
  · exact fun h => ⟨_, Tape.atVmexit_cut_iff.mpr ⟨h, rfl⟩⟩
  · rintro ⟨e, h⟩
    exact (Tape.atVmexit_cut_iff.mp h).1

theorem Fetched.Gives.followsGrammar {z : Fetched} {o : Outcome SyncFile SyncEvent}
    (hgives : z.Gives R f o) (hz : Tape.atVmexit (x :: S) = z.own) : FollowsGrammar R x S o := by
  have hcomplete := Tape.completes_iff (x := x) (S := S)
  have hcut := Tape.interrupts_iff (x := x) (S := S)
  rw [hz] at hcomplete hcut
  -- Each kind of result comes from one form of the tape, and excludes the other forms.
  cases hgives with
  | nothing hafter hsame => exact absurd hz Tape.atVmexit_ne_nothing
  | cut hafter hsame =>
    obtain ⟨his, rfl⟩ := Tape.atVmexit_cut_iff.mp hz
    have hno : ¬ ∃ is n U, Tape.Completes x S is n U := by
      rw [hcomplete]
      rintro ⟨e, n, U, h⟩
      cases h
    refine ⟨⟨?_, fun h => absurd h hno⟩, fun is n U h => absurd ⟨is, n, U, h⟩ hno,
      ⟨fun _ => his, fun _ => ⟨_, _, rfl, rfl, rfl⟩⟩, ⟨?_, fun h => absurd his h.2⟩⟩
    · rintro ⟨e, g, ho, -, hlast⟩
      cases ho
      cases hlast
    · rintro ⟨err, g, ho⟩
      cases ho
  | malformed hafter hsame =>
    have hno : ¬ ∃ is n U, Tape.Completes x S is n U := by
      rw [hcomplete]
      rintro ⟨e, n, U, h⟩
      cases h
    have hno' : ¬ S.Interrupts none := by
      rw [hcut]
      rintro ⟨e, h⟩
      cases h
    refine ⟨⟨?_, fun h => absurd h hno⟩, fun is n U h => absurd ⟨is, n, U, h⟩ hno,
      ⟨?_, fun h => absurd h hno'⟩, ⟨fun _ => ⟨hno, hno'⟩, fun _ => ⟨_, _, rfl⟩⟩⟩
    · rintro ⟨e, g, ho, -⟩
      cases ho
    · rintro ⟨e, g, ho, -⟩
      cases ho
  | complete hafter hsame =>
    obtain ⟨is, hcompletes, rfl⟩ := Tape.atVmexit_complete_iff.mp hz
    have hno : ¬ S.Interrupts none := by
      rw [hcut]
      rintro ⟨e, h⟩
      cases h
    refine ⟨⟨fun _ => ⟨is, _, _, hcompletes⟩, fun _ => ⟨_, _, rfl, rfl, rfl⟩⟩, ?_,
      ⟨?_, fun h => absurd h hno⟩, ⟨?_, fun h => absurd ⟨is, _, _, hcompletes⟩ h.1⟩⟩
    · -- The points complete only one event.
      intro is' n' U' h'
      have heq := Tape.atVmexit_complete_iff.mpr ⟨is', h', rfl⟩
      rw [hz] at heq
      obtain ⟨hevent, hn, -⟩ := Fetched.complete.inj heq
      refine ⟨_, by rw [hevent], hafter.1, ?_, ?_⟩
      · rw [hafter.2.1, ← hn]
        rfl
      · rw [hafter.2.2.1, ← hn]
        rfl
    · rintro ⟨e, g, ho, -, hlast⟩
      cases ho
      cases hlast
    · rintro ⟨err, g, ho⟩
      cases ho

/-- A point of a record, without data, is that record decoded on its own, up to a left-over vector. -/
theorem Recording.IsPoint.own {k : ℕ} {c : SyncPoint} (h : R.IsPoint k c) (hflag : R.Flagged)
    (hdata : c.data = []) : c.own = (R.record k).decode := by
  obtain ⟨h1, hk, p, data, rfl⟩ := h
  obtain rfl : data = [] := hdata
  rw [(hflag k h1 hk).own]
  rfl

end

/-- Without a data file, and with every interrupt flagged as one: in every state that `next()` and seeks
bring a freshly loaded reader into, on the point of a VMExit at the position `k`, `fetch_new_event` ends
and follows the grammar. The points after the VMExit are the records after the `k`-th, less those
identical to their predecessor. -/
theorem fetchNewEvent_grammar (R : Recording) (f₀ f : SyncFile) (h₀ : Loaded R none f₀)
    (hflag : R.Flagged) (hmoves : Moves f₀ f) (hpoint : R.IsPoint f.position f.current)
    (hexit : f.current.isVmexit = true) :
    ∃ o, f.fetchNewEvent = some o ∧ FollowsGrammar R (R.pointAt f.position)
      ((R.keptFrom f.position).map R.pointAt) o := by
  have hplaced := hmoves.placed h₀.placed
  have hread := hplaced.reading hpoint
  obtain ⟨o, ho, hgives⟩ := fetchNewEvent_spec hread.after hplaced.event
  obtain ⟨-, hd, hdata⟩ := hplaced.alone
  have hcur := hpoint.own hflag hdata
  have hx : Tape.ownAt (f.position, f.current) = R.pointAt f.position := by
    rw [Tape.ownAt, hcur]
    rfl
  have htape : Tape.own (R.tape f) = (R.keptFrom f.position).map R.pointAt :=
    R.tape_own hflag hd (hpoint.stands (hflag _ hpoint.1 hpoint.2.1))
  refine ⟨o, ho, hgives.followsGrammar ?_⟩
  rw [← Tape.fetch_own, hx, htape]
  have hexit' : (R.pointAt f.position).2.isVmexit = true := by
    rw [← hx]
    exact hexit
  simp [Tape.fetch, Tape.fetchVmexit, Tape.toVmexit, hexit']

/-- On the recording `fourGroups`, a seek to the fourth VMExit, whose interrupt is reported twice, leads
to an event that ends with the ninth record. -/
theorem fetchNewEvent_grammar_fourGroups : ∃ f₀ f g e, Loaded fourGroups none f₀ ∧
    f₀.seek 6 = some f ∧ f.fetchNewEvent = some (.returned e g) ∧ g.position = 9 ∧
    e.has_interrupt = true := by
  obtain ⟨f₀, hf₀⟩ : ∃ f, Loaded fourGroups none f := Recording.ofRecords_loaded
  obtain ⟨f, hf, -, hpos, hcur, -⟩ := seek_record hf₀.reading.toAttached
    (q := 6) (by decide) (by decide)
  have hrecord : fourGroups.record 6 = .simple 0 6 8 5 :=
    Recording.ofRecords_record (i := 5) (by decide)
  have hpoints : (fourGroups.keptFrom 6).map fourGroups.pointAt =
      [(7, .simple 0x10e 7 8 5), (8, .simple 0x10e 8 8 5), (9, .simple 0xff 9 8 5)] :=
    Recording.ofRecords_points fourGroups_flagged 6
  have hpoint : fourGroups.IsPoint f.position f.current := by
    rw [hpos]
    exact ⟨by decide, by decide, _, _, hcur⟩
  have hexit : f.current.isVmexit = true := by
    rw [hcur, SyncRecord.point_isVmexit, hrecord]
    rfl
  obtain ⟨o, ho, hgrammar⟩ := fetchNewEvent_grammar fourGroups f₀ f hf₀ fourGroups_flagged
    (.seek 6 .start hf) hpoint hexit
  rw [hpos, hpoints, Recording.pointAt, hrecord] at hgrammar
  obtain ⟨g, rfl, -, hg, -⟩ := hgrammar.complete [(7, .simple 0x10e 7 8 5), (8, .simple 0x10e 8 8 5)]
    (9, .simple 0xff 9 8 5) []
    ⟨rfl, ⟨by decide, by decide, by decide, fun n hn => by cases hn; decide⟩, by decide, rfl⟩
  exact ⟨f₀, f, g, _, hf₀, hf, ho, hg, rfl⟩

end RvnSyncPoint
