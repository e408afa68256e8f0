import RvnSyncPoint.Sync.Advance
import RvnSyncPoint.Sync.Dump
import RvnSyncPoint.Sync.Interrupts
import RvnSyncPoint.Sync.LastValid

/-!
# The last valid position stays behind the reader

Whether the last valid position is at most the position, in runs of the calls that move the reader. A
reader that has it so is in the file, or off its end where a look-ahead has sought the position before
zero (`Behind`). There are two calls that break it: `seek_from_end`, which stores the number of records
from the end as if it were a position, and `next()` off the end of the file, which lets the position
wrap around (`lastValid_le_position`).
-/

namespace RvnSyncPoint

open LittleEndian Loop StreamableFile

section

variable {R : Recording} {P : SyncFile → Prop} {f g : SyncFile} {e e' : SyncEvent} {k n : ℕ}
  {T : List (ℕ × SyncPoint)}

/-! ## The positions of the events that are fetched -/

theorem fetchVmenter_position (ho : f.fetchVmenter e = .returned e' g) : e'.position = e.position := by
  unfold SyncFile.fetchVmenter at ho
  cases hfinish : e.finish f.current f.position with
  | error err =>
    rw [hfinish] at ho
    cases ho
  | ok e'' =>
    rw [hfinish] at ho
    cases ho
    obtain ⟨-, rfl⟩ := SyncEvent.finish_ok hfinish
    rfl

theorem fetchAfterInterrupt_position {isp : SyncPoint}
    (ho : f.fetchAfterInterrupt e isp = .returned e' g) : e'.position = e.position := by
  obtain ⟨-, -, -, rfl⟩ := fetchAfterInterrupt_returned ho
  rfl

theorem fetchInterrupt_position (ho : f.fetchInterrupt e = some (.returned e' g)) :
    e'.position = e.position := by
  obtain ⟨j, -, ho⟩ := Option.bind_eq_some_iff.mp ho
  split_ifs at ho with hend hint hequiv
  · cases ho
    rfl
  · cases ho
  · obtain ⟨z, -, ho⟩ := Option.bind_eq_some_iff.mp ho
    split_ifs at ho with hend'
    · cases ho
      rfl
    · have hposition := fetchAfterInterrupt_position (Option.some.inj ho)
      exact hposition
  · have hposition := fetchAfterInterrupt_position (Option.some.inj ho)
    exact hposition

theorem fetchBody_position (ho : f.fetchBody e = some (.returned e' g)) :
    e'.position = e.position := by
  unfold SyncFile.fetchBody at ho
  dsimp only at ho
  split_ifs at ho with hint
  · have hposition := fetchInterrupt_position ho
    exact hposition
  · have hposition := fetchVmenter_position (Option.some.inj ho)
    exact hposition

/-- An event that is fetched begins at a position that the reader was at, or at zero if there is none. -/
theorem KeptByNext.fetchNewEvent_position (hP : KeptByNext P) (hle : ∀ f, P f → f.position ≤ n)
    (h : P f) (ho : f.fetchNewEvent = some (.returned e g)) : e.position ≤ n := by
  obtain ⟨r, hr, ho⟩ := Option.bind_eq_some_iff.mp ho
  have hPr := hP.skipToVmexit h hr
  cases r with
  | inl k =>
    cases ho
    exact Nat.zero_le n
  | inr k =>
    have hk := hle k hPr
    dsimp only at ho
    split_ifs at ho with hmissing
    · rw [fetchBody_position ho]
      exact hk
    · obtain ⟨j, -, ho⟩ := Option.bind_eq_some_iff.mp ho
      split_ifs at ho with hend
      · cases ho
        exact hk
      · rw [fetchBody_position ho]
        exact hk

/-- So the look-ahead goes back to a position before one that the reader was at, or before zero. -/
theorem KeptByNext.seeksAhead_le (hP : KeptByNext P) (hle : ∀ f, P f → f.position ≤ n) (h : P f)
    (hk : f.SeeksAhead e k) : ∃ p ≤ n, k = pred64 p := by
  induction hk with
  | @here e e_next f g heffect hfetch hmerge =>
    exact ⟨_, hP.fetchNewEvent_position hle h hfetch, rfl⟩
  | later heffect hfetch hmerge rest ih => exact ih (hP.fetchNewEvent h hfetch)

theorem KeptByNext.seeksInEvent_le (hP : KeptByNext P) (hle : ∀ f, P f → f.position ≤ n) (h : P f)
    (hk : f.SeeksInEvent k) : ∃ p ≤ n, k = pred64 p := by
  obtain ⟨-, e, g, hfetch, hk⟩ := hk
  exact hP.seeksAhead_le hle (hP.fetchNewEvent h hfetch) hk

/-! ## Readers in the file -/

theorem Recording.After.position_le (h : R.After f T) : f.position ≤ R.count := by
  cases T with
  | nil => exact h.2.le
  | cons x T => exact h.1.position_le

/-- `next()` in the file moves the reader forward. -/
theorem Recording.After.next (h : R.After f T) : ∃ g U, f.next = some g ∧ R.After g U ∧
    f.position ≤ g.position ∧ g.last_valid_position = f.last_valid_position := by
  cases T with
  | nil => exact ⟨f, [], h.1.next, h, le_rfl, rfl⟩
  | cons x T =>
    obtain ⟨hread, -, -, htape⟩ := h
    obtain ⟨g, hg, hafter, -, hlast⟩ := next_reading hread
    refine ⟨g, _, hg, hafter, ?_, hlast⟩
    cases hnext : R.tape f with
    | nil =>
      rw [hnext] at hafter
      rw [hafter.2]
      exact hread.position_le
    | cons y U =>
      have hlt := (Recording.mem_tape (R := R) (f := f) (x := y) (by simp [hnext])).1
      rw [hnext] at hafter
      rw [hafter.2.1]
      exact hlt.le

/-- The reader is in the file, with the last valid position behind it. -/
def BehindInFile (R : Recording) (f : SyncFile) : Prop :=
  (∃ T, R.After f T) ∧ f.last_valid_position ≤ f.position

theorem behindInFile_keptByNext (R : Recording) : KeptByNext (BehindInFile R) := by
  rintro f g ⟨⟨T, h⟩, hle⟩ hnext
  obtain ⟨g', U, hg', hafter, hpos, hlast⟩ := h.next
  rw [hnext] at hg'
  cases hg'
  exact ⟨⟨U, hafter⟩, by omega⟩

/-- What a run keeps: the last valid position is behind the reader, in the file or off its end. -/
def Behind (R : Recording) (f : SyncFile) : Prop :=
  BehindInFile R f ∨ OffEnd R f ∧ 2 ^ 64 - 2 ≤ f.last_valid_position ∧
    f.last_valid_position ≤ f.position

theorem Behind.attached (h : Behind R f) : Attached R f := by
  rcases h with ⟨⟨T, h⟩, -⟩ | ⟨h, -⟩
  · exact h.attached
  · exact h.toAttached

theorem Behind.le (h : Behind R f) : f.last_valid_position ≤ f.position := by
  rcases h with ⟨-, h⟩ | ⟨-, -, h⟩
  · exact h
  · exact h

/-- A seek that ends in the file, or off its end, leaves the last valid position behind. -/
theorem Located.behind (h : Located R f) (hlast : f.last_valid_position = f.position - 1) :
    Behind R f := by
  rcases h with ⟨T, h⟩ | h
  · exact .inl ⟨⟨T, h⟩, by omega⟩
  · have hpos := h.position
    exact .inr ⟨h, by omega, by omega⟩

/-- Which event is cached does not matter. -/
theorem Behind.keep (h : Behind R f) (e : SyncEvent) : Behind R { f with current_event := e } := by
  rcases h with ⟨⟨T, h⟩, hle⟩ | ⟨h, hle⟩
  · exact .inl ⟨⟨T, h.keep e⟩, hle⟩
  · exact .inr ⟨h.update e _, hle⟩

/-! ## The calls -/

/-- A seek to a position of the file, or to the one before zero, ends somewhere. -/
theorem Attached.seek_located (h : Attached R f) {p : ℕ} (hp : p ≤ R.count)
    (hseek : f.seek (pred64 p) = some g) : Located R g := by
  have hcount := R.count_lt
  rcases Nat.eq_zero_or_pos p with rfl | hpos
  · obtain ⟨g', hg', hlocated, -⟩ := seek_wrapped_located h (q := pred64 0) rfl
    rw [hseek] at hg'
    cases hg'
    exact hlocated
  · have hpred : pred64 p = p - 1 := by
      unfold pred64
      omega
    rw [hpred] at hseek
    rcases Nat.eq_zero_or_pos (p - 1) with h0 | hpos'
    · rw [h0] at hseek
      obtain ⟨g', hg', hread, -⟩ := seek_zero h
      rw [hseek] at hg'
      cases hg'
      exact .inl ⟨_, hread.after⟩
    · obtain ⟨g', hg', hread, -⟩ := seek_record h hpos' (by omega)
      rw [hseek] at hg'
      cases hg'
      exact .inl ⟨_, hread.after⟩

/-- `current_event` in the file. -/
theorem BehindInFile.currentEvent (h : BehindInFile R f) {o : Outcome SyncFile SyncEvent}
    (ho : f.currentEvent = some o) : Behind R o.state := by
  have hle : ∀ f, BehindInFile R f → f.position ≤ R.count := fun f hf => by
    obtain ⟨⟨T, hafter⟩, -⟩ := hf
    exact hafter.position_le
  -- It moves by `next()`, and at most once by a seek.
  obtain ⟨g, e, hstate, ⟨hkept, -⟩ | ⟨k, g', hk, ⟨⟨T, hafter⟩, -⟩, hseek⟩⟩ :=
    (behindInFile_keptByNext R).currentEvent h ho
  · rw [hstate]
    exact Behind.keep (.inl hkept) e
  · -- It went back, to before a position that it was at.
    obtain ⟨p, hp, hkp⟩ := (behindInFile_keptByNext R).seeksInEvent_le hle h hk
    have hlast := seek_lastValid hafter.attached.record_size_ne hseek
    rw [hkp] at hseek
    have hlocated := hafter.attached.seek_located hp hseek
    rw [hstate]
    exact (hlocated.behind hlast).keep e

/-- A seek keeps the recording open. -/
theorem Attached.seek_attached (h : Attached R f) (hseek : f.seek k = some g) : Attached R g := by
  obtain ⟨dc, hd⟩ := h.data
  exact (rel_self ((attached_lockstep (Healthy.keptByData dc)).seekTo k ⟨rfl, h, hd⟩) hseek).1

/-- The loop of `advance_to` leaves the reader on a record, after a seek if it moves it. -/
theorem OnRecord.backToVmexit_behind {nodata : Prop} {q : ℕ} (h : OnRecord R nodata q f)
    (hle : f.last_valid_position ≤ f.position) (hg : f.backToVmexit q = some g) : BehindInFile R g := by
  obtain ⟨g', j, hg', hon, -⟩ := backToVmexit_spec q f h
  rw [hg] at hg'
  cases hg'
  refine ⟨⟨_, hon.toReading.after⟩, ?_⟩
  refine loop_inv (fun s => Attached R s.2 ∧ s.2.last_valid_position ≤ s.2.position)
    (fun g => g.last_valid_position ≤ g.position) ?_ ?_ (q, f) g ⟨h.toAttached, hle⟩ hg
  · rintro ⟨q, f⟩ ⟨q', f'⟩ ⟨hatt, hle⟩ hstep
    dsimp only at hstep hatt hle ⊢
    split_ifs at hstep with hgo
    · obtain ⟨k, hk, hstep⟩ := Option.bind_eq_some_iff.mp hstep
      obtain ⟨rfl, rfl⟩ := Prod.mk.inj (Sum.inl.inj (Option.some.inj hstep))
      have hlast := seek_lastValid hatt.record_size_ne hk
      exact ⟨hatt.seek_attached hk, by omega⟩
    · cases hstep
  · rintro ⟨q, f⟩ g ⟨-, hle⟩ hstep
    dsimp only at hstep hle ⊢
    split_ifs at hstep with hgo
    · obtain ⟨k, -, hstep⟩ := Option.bind_eq_some_iff.mp hstep
      cases hstep
    · cases hstep
      exact hle

/-- `advance_to` a position of the file. -/
theorem Attached.advanceTo_behind (h : Attached R f) {q : ℕ} (hq : q ≤ R.count) {u : Unit}
    (hadv : f.advanceTo q = some (.returned u g)) : Behind R g := by
  rcases Nat.eq_zero_or_pos q with rfl | h1
  · obtain ⟨k, hk, hread, hpos, -, -, hlast, -⟩ := seek_zero h
    rw [advanceTo_seek hk (.inl rfl)] at hadv
    cases hadv
    exact .inl ⟨⟨_, hread.after⟩, by omega⟩
  · obtain ⟨k, hk, hon, hlast⟩ := seek_onRecord h False.elim h1 hq
    have hpos := hon.pos
    cases hv : k.current.isVmenter with
    | false =>
      rw [advanceTo_seek hk (.inr hv)] at hadv
      cases hadv
      exact .inl ⟨⟨_, hon.after⟩, by omega⟩
    | true =>
      -- On a VMEnter, it goes back and gets the event.
      obtain ⟨l, j, hl, -⟩ := backToVmexit_spec q k hon
      rw [advanceTo_eq (by omega) hk hv, hl, Option.bind_some] at hadv
      obtain ⟨o, ho, hforget⟩ := Option.map_eq_some_iff.mp hadv
      have hbehind := (hon.backToVmexit_behind (by omega) hl).currentEvent ho
      cases o with
      | thrown err m => cases hforget
      | returned e m =>
        cases hforget
        exact hbehind

/-- `next()` off the end of the file, where it returns, has come back to the file: the position has
wrapped around. -/
theorem OffEnd.next (h : OffEnd R f) (hnext : f.next = some g) :
    (∃ T, R.After g T) ∧ g.last_valid_position = f.last_valid_position := by
  refine ⟨?_, lastValid_keptByNext _ f g rfl hnext⟩
  obtain ⟨hatt, hpos, ⟨o, v, hfile, hcurrent⟩ | ⟨hsmall, hfile⟩⟩ := h
  · rw [failed_next_none hfile hatt.version hcurrent] at hnext
    cases hnext
  · have heof : f.eof = false := by rw [SyncFile.eof, hfile]; rfl
    have hoffset : HEADER_SIZE - R.record_size.toNat + f.record_size.toNat = HEADER_SIZE := by
      rw [hatt.record_size]
      omega
    have hlen : HEADER_SIZE ≤ R.content.length := by
      rw [R.length_eq]
      exact Nat.le_add_right _ _
    obtain ⟨k, hpass, hk, hkfile, hkpos, -⟩ := hatt.readPass hfile (by omega)
    -- The next record is the first one of the file.
    have hkpos' : k.position = 0 := by rw [hkpos, hpos]; rfl
    have hread : Reading R k := by
      refine ⟨hk, ?_, by rw [hkpos']; exact Nat.zero_le _⟩
      rw [hkfile, hoffset, hkpos']
      rfl
    by_cases hsame : f.current.operatorEq k.current = true
    · obtain ⟨l, hl, hafter, -⟩ := skipIdentical_reading f.current _ k hread rfl
        (SyncPoint.operatorEq_vector hsame).symm
      have hskip : SyncFile.skipIdentical f.current f = some l := by
        rw [SyncFile.skipIdentical, loop_again (t := k) (by simp [hpass, hsame, hread.eof])]
        exact hl
      rw [SyncFile.next, heof, hskip] at hnext
      cases hnext
      exact ⟨_, hafter.dropEvent⟩
    · have hskip : SyncFile.skipIdentical f.current f = some k :=
        loop_leave (by simp [hpass, hsame])
      rw [SyncFile.next, heof, hskip] at hnext
      cases hnext
      exact ⟨_, hread.after.dropEvent⟩

/-- The calls that move the reader in the file. -/
def Call.Moves (R : Recording) : Call → Prop
  | .next => True
  | .validate => True
  | .advanceTo q => q ≤ R.count
  | .seekFromEnd p => p < R.count
  | _ => False

/-- The call leaves the last valid position behind the reader: it is no `next()` that lets the position
wrap around, and no `seek_from_end` to the first half of the file. -/
def Call.StaysBehind (R : Recording) (f : SyncFile) : Call → Prop
  | .next => f.position ≠ 2 ^ 64 - 1
  | .seekFromEnd p => 2 * p + 1 ≤ R.count
  | _ => True

/-- `next()`. -/
theorem Behind.next (h : Behind R f) (hnext : f.next = some g) :
    (f.position ≠ 2 ^ 64 - 1 → Behind R g) ∧
      (f.position = 2 ^ 64 - 1 → ¬ g.last_valid_position ≤ g.position) := by
  have hcount := R.count_lt
  rcases h with hin | ⟨hoff, hlast, -⟩
  · refine ⟨fun _ => .inl (behindInFile_keptByNext R f g hin hnext), fun hpos => ?_⟩
    obtain ⟨⟨T, hafter⟩, -⟩ := hin
    have hle := hafter.position_le
    omega
  · refine ⟨fun hpos => absurd hoff.position hpos, fun _ hle => ?_⟩
    obtain ⟨⟨T, hafter⟩, hsame⟩ := hoff.next hnext
    have hpos := hafter.position_le
    omega

theorem Behind.validate (h : Behind R f) : Behind R f.validate := by
  rw [validate_eq]
  rcases h with ⟨⟨T, h⟩, -⟩ | ⟨h, -⟩
  · exact .inl ⟨⟨T, h.update f.current_event _⟩, le_rfl⟩
  · have hpos := h.position
    refine .inr ⟨h.update f.current_event _, ?_, le_rfl⟩
    show 2 ^ 64 - 2 ≤ f.position
    omega

/-- A call of a run keeps the last valid position behind the reader exactly if it is one that stays
behind. -/
theorem Behind.call (h : Behind R f) {c : Call} {v : Value} (hc : c.Moves R)
    (hcall : c.run f = some (.returned v g)) :
    (c.StaysBehind R f → Behind R g) ∧
      (¬ c.StaysBehind R f → ¬ g.last_valid_position ≤ g.position) := by
  -- `validate` and `advance_to` store a position of their own, so only the other two can break it.
  cases c with
  | next =>
    obtain ⟨k, hk, heq⟩ := Option.map_eq_some_iff.mp hcall
    cases heq
    obtain ⟨hstays, hwraps⟩ := h.next hk
    exact ⟨hstays, fun hpos => hwraps (not_not.mp hpos)⟩
  | validate =>
    cases hcall
    exact ⟨fun _ => h.validate, fun hnot => (hnot trivial).elim⟩
  | advanceTo q =>
    obtain ⟨o, ho, heq⟩ := Option.map_eq_some_iff.mp hcall
    cases o with
    | thrown err k => cases heq
    | returned u k =>
      cases heq
      exact ⟨fun _ => h.attached.advanceTo_behind hc ho, fun hnot => (hnot trivial).elim⟩
  | seekFromEnd p =>
    cases hcall
    have hp : p < R.count := hc
    obtain ⟨hread, hpos, -, -, hlast, -⟩ := seekFromEnd_reading h.attached hp
    constructor
    · intro hstays
      have hhalf : 2 * p + 1 ≤ R.count := hstays
      exact .inl ⟨⟨_, hread.after⟩, by omega⟩
    · intro hnot hle
      have hhalf : ¬ 2 * p + 1 ≤ R.count := hnot
      omega
  | isValid => exact hc.elim
  | eof => exact hc.elim
  | current => exact hc.elim
  | currentEvent => exact hc.elim
  | position => exact hc.elim
  | lastValidPosition => exact hc.elim
  | syncPointCount => exact hc.elim

/-- In every run whose calls stay behind, the last valid position is at most the position in every state
that is reached; and any further call keeps it so exactly if it stays behind too. -/
theorem lastValid_le_position (R : Recording) (data : Option (List UInt8)) (f₀ f : SyncFile)
    (h₀ : Loaded R data f₀) (hrun : Run (fun g c => c.Moves R ∧ c.StaysBehind R g) f₀ f) :
    f.last_valid_position ≤ f.position ∧
      ∀ (c : Call) (v : Value) (g : SyncFile), c.Moves R → c.run f = some (.returned v g) →
        (g.last_valid_position ≤ g.position ↔ c.StaysBehind R f) := by
  have hbehind : Behind R f := by
    induction hrun with
    | start => exact .inl ⟨⟨_, h₀.reading.after⟩, by rw [h₀.fields.2.2.2]; exact Nat.zero_le _⟩
    | step hrun hok hcall ih => exact (ih.call hok.1 hcall).1 hok.2
  refine ⟨hbehind.le, fun c v g hc hcall => ?_⟩
  obtain ⟨hstays, hleaves⟩ := hbehind.call hc hcall
  exact ⟨fun hle => by_contra fun hnot => hleaves hnot hle, fun h => (hstays h).le⟩

/-- Before the last record of three. -/
theorem lastValid_le_position_effect : ∃ f₀, Loaded effectAtEnd none f₀ ∧
    (f₀.seekFromEnd 0).last_valid_position ≤ (f₀.seekFromEnd 0).position := by
  obtain ⟨f, hf⟩ : ∃ f, Loaded effectAtEnd none f := Recording.ofRecords_loaded
  have hmoves : (Call.seekFromEnd 0).Moves effectAtEnd := show 0 < effectAtEnd.count by decide
  have hstays : (Call.seekFromEnd 0).StaysBehind effectAtEnd f :=
    show 2 * 0 + 1 ≤ effectAtEnd.count by decide
  exact ⟨f, hf, (lastValid_le_position effectAtEnd none f (f.seekFromEnd 0) hf
    (.step .start ⟨hmoves, hstays⟩ rfl)).1⟩

/-- Before the first of them it is not. -/
theorem not_lastValid_le_position : ¬ ∀ (R : Recording) (data : Option (List UInt8))
    (f₀ f : SyncFile), Loaded R data f₀ → Run (fun _ c => c.Moves R) f₀ f →
      f.last_valid_position ≤ f.position := by
  intro halways
  obtain ⟨f, hf⟩ : ∃ f, Loaded effectAtEnd none f := Recording.ofRecords_loaded
  have hmoves : 2 < effectAtEnd.count := by decide
  have hcall : (Call.seekFromEnd 2).Moves effectAtEnd := hmoves
  have hle := halways effectAtEnd none f (f.seekFromEnd 2) hf (.step .start hcall rfl)
  obtain ⟨-, hpos, -, -, hlast, -⟩ := seekFromEnd_reading hf.reading.toAttached hmoves
  rw [hpos, hlast] at hle
  exact absurd hle (by decide)

end

end RvnSyncPoint
