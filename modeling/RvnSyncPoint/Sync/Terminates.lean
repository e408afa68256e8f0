import RvnSyncPoint.Sync.Calls
import RvnSyncPoint.Sync.GoesBack
import RvnSyncPoint.Sync.Kept
import RvnSyncPoint.Sync.Scan

/-!
# Termination of `next()`

A seek to an offset that the stream cannot be moved to, before the start of the file or beyond the
largest offset, makes it fail, and the file does not say that it has met its end: reads give zeros for
ever, and the second `next()` does not end (`failed_next_none`). So `next()` ends in every state that
calls reach which make no such seek (`run_next_total`). `Call.Seeks` are the positions that a call seeks
to.
-/

namespace RvnSyncPoint

open LittleEndian Loop StreamableFile

/-! ## The positions that a call seeks to -/

/-- The positions that the loop of `advance_to` goes back to, from the position `q`. -/
inductive SyncFile.SeeksBack : ℕ → SyncFile → ℕ → Prop
  | here {q : ℕ} {f : SyncFile} (hgo : (!f.current.isVmexit && 1 < f.position) = true) :
    SeeksBack q f (pred64 q)
  | later {q k : ℕ} {f g : SyncFile} (hgo : (!f.current.isVmexit && 1 < f.position) = true)
    (hseek : f.seek (pred64 q) = some g) (rest : SeeksBack (pred64 q) g k) : SeeksBack q f k

/-- The positions that a call seeks to. -/
def Call.Seeks (f : SyncFile) (k : ℕ) : Call → Prop
  | .currentEvent => f.EventGoesBack k
  | .advanceTo q => k = q ∨ q ≠ 0 ∧ ∃ g, f.seek q = some g ∧ g.current.isVmenter = true ∧
      (g.SeeksBack q k ∨ ∃ h, g.backToVmexit q = some h ∧ h.EventGoesBack k)
  | _ => False

/-- The stream does not take the offset of the position for a negative one. -/
def InRange (rs : UInt32) (k : ℕ) : Prop :=
  k = 0 ∨ (HEADER_SIZE + rs.toNat * (k - 1)) % 2 ^ 64 < 2 ^ 63

/-- Going back from the end of the file by `p + 1` records leads to an offset that the stream can be moved
to. -/
def FromEndInRange (c : List UInt8) (rs : UInt32) (p : ℕ) : Prop :=
  InputStream.Seekable c (c.length + -toInt64 ((rs.toNat * ((p + 1) % 2 ^ 64)) % 2 ^ 64))

instance (c : List UInt8) (rs : UInt32) (p : ℕ) : Decidable (FromEndInRange c rs p) :=
  inferInstanceAs (Decidable (InputStream.Seekable _ _))

/-- The call makes no seek that the stream fails at. -/
def Call.StaysInFile (c : List UInt8) (rs : UInt32) (f : SyncFile) (call : Call) : Prop :=
  (∀ k, call.Seeks f k → InRange rs k) ∧ ∀ p, call = .seekFromEnd p → FromEndInRange c rs p

section

variable {P : SyncFile → Prop} {f g : SyncFile} {e e_next : SyncEvent}
  {o : Outcome SyncFile SyncEvent}

/-- The loop of `current_event` moves by `next()`, and at most once by a seek, with which it leaves. -/
theorem KeptByNext.merge (hP : KeptByNext P) (h : P f)
    (ho : loop SyncFile.mergePass (e, f) = some o) :
    (P o.state ∧ ∀ k, ¬ f.SeeksAhead e k) ∨
      ∃ k g g' e', f.SeeksAhead e k ∧ P g ∧ g.seek k = some g' ∧ o = .returned e' g' := by
  refine loop_inv (fun s => P s.2 ∧ ∀ k, f.SeeksAhead e k ↔ s.2.SeeksAhead s.1 k)
    (fun o => (P o.state ∧ ∀ k, ¬ f.SeeksAhead e k) ∨
      ∃ k g g' e', f.SeeksAhead e k ∧ P g ∧ g.seek k = some g' ∧ o = .returned e' g') ?_ ?_
    (e, f) o ⟨h, fun _ => Iff.rfl⟩ ho
  · -- A merge only calls `next()`.
    rintro ⟨e₁, f₁⟩ ⟨e₂, f₂⟩ ⟨h, hseeks⟩ hstep
    dsimp only [SyncFile.mergePass] at hstep h hseeks ⊢
    split_ifs at hstep with heffect
    · obtain ⟨r, hr, hstep⟩ := Option.bind_eq_some_iff.mp hstep
      cases r with
      | thrown err g => cases hstep
      | returned e_next g =>
        dsimp only at hstep
        split_ifs at hstep with hmerge
        · cases hstep
          exact ⟨hP.fetchNewEvent h hr,
            fun k => (hseeks k).trans (SyncFile.seeksAhead_merge_iff heffect hr hmerge k)⟩
        · obtain ⟨k, -, hstep⟩ := Option.bind_eq_some_iff.mp hstep
          cases hstep
    · cases hstep
  · -- The loop leaves by an exception, by its seek, or on an event with an effect.
    rintro ⟨e₁, f₁⟩ o ⟨h, hseeks⟩ hstep
    dsimp only [SyncFile.mergePass] at hstep h hseeks ⊢
    split_ifs at hstep with heffect
    · obtain ⟨r, hr, hstep⟩ := Option.bind_eq_some_iff.mp hstep
      have hfetched := hP.fetchNewEvent h hr
      cases r with
      | thrown err g =>
        cases hstep
        refine .inl ⟨hfetched, fun k hk => ?_⟩
        cases (hseeks k).mp hk with
        | here _ hfetch _ =>
          rw [hr] at hfetch
          cases hfetch
        | later _ hfetch _ _ =>
          rw [hr] at hfetch
          cases hfetch
      | returned e_next g =>
        dsimp only at hstep
        split_ifs at hstep with hmerge
        · cases hstep
        · obtain ⟨g', hg', hstep⟩ := Option.bind_eq_some_iff.mp hstep
          cases hstep
          have hhere := SyncFile.SeeksAhead.here heffect hr (Bool.eq_false_of_not_eq_true hmerge)
          exact .inr ⟨_, g, g', e₁, (hseeks _).mpr hhere, hfetched, hg', rfl⟩
    · cases hstep
      refine .inl ⟨h, fun k hk => ?_⟩
      cases (hseeks k).mp hk with
      | here heffect' _ _ => exact heffect heffect'
      | later heffect' _ _ _ => exact heffect heffect'

/-- So does `current_event`, before it stores the event. -/
theorem KeptByNext.currentEvent (hP : KeptByNext P) (h : P f) (ho : f.currentEvent = some o) :
    ∃ g e, o.state = { g with current_event := e } ∧
      ((P g ∧ ∀ k, ¬ f.SeeksInEvent k) ∨
        ∃ k g', f.SeeksInEvent k ∧ P g' ∧ g'.seek k = some g) := by
  unfold SyncFile.currentEvent at ho
  split_ifs at ho with hcached
  · cases ho
    refine ⟨f, f.current_event, rfl, .inl ⟨h, fun k hk => ?_⟩⟩
    obtain ⟨hfresh, -⟩ := hk
    rw [hcached] at hfresh
    cases hfresh
  · have hfresh := Bool.eq_false_of_not_eq_true hcached
    obtain ⟨r, hr, ho⟩ := Option.bind_eq_some_iff.mp ho
    have hfetched := hP.fetchNewEvent h hr
    cases r with
    | thrown err g =>
      cases ho
      refine ⟨g, g.current_event, rfl, .inl ⟨hfetched, fun k hk => ?_⟩⟩
      obtain ⟨-, e, g', hfetch, -⟩ := hk
      rw [hr] at hfetch
      cases hfetch
    | returned e g =>
      obtain ⟨r', hr', ho⟩ := Option.bind_eq_some_iff.mp ho
      -- What the loop does is what the call does.
      have hseeks (k : ℕ) : f.SeeksInEvent k ↔ g.SeeksAhead e k := by
        constructor
        · rintro ⟨-, e', g', hfetch, hk⟩
          rw [hr] at hfetch
          cases hfetch
          exact hk
        · exact fun hk => ⟨hfresh, e, g, hr, hk⟩
      rcases hP.merge hfetched hr' with ⟨hkept, hnone⟩ | ⟨k, g₁, g₂, e', hk, hg₁, hseek, rfl⟩
      · have hnone' : ∀ k, ¬ f.SeeksInEvent k := fun k hk => hnone k ((hseeks k).mp hk)
        cases r' with
        | thrown err g =>
          cases ho
          exact ⟨g, g.current_event, rfl, .inl ⟨hkept, hnone'⟩⟩
        | returned e' g =>
          cases ho
          exact ⟨g, e', rfl, .inl ⟨hkept, hnone'⟩⟩
      · cases ho
        exact ⟨g₂, e', rfl, .inr ⟨k, g₁, (hseeks k).mpr hk, hg₁, hseek⟩⟩

end

/-! ## Readers that a seek made fail -/

section

variable {c : List UInt8} {rs : UInt32} {f g : SyncFile} {o : ℕ}

/-- A failed reader that has read a zero point: `next()` does not end. -/
theorem failed_next_none {v : UInt8} (hfile : f.file = failedAt c o) (hversion : f.version = 3)
    (hcurrent : f.current = zeroPoint v) : f.next = none := by
  have heof : f.eof = false := by rw [SyncFile.eof, hfile]; rfl
  have hskip : SyncFile.skipIdentical (zeroPoint v) f = none := by
    refine loop_diverges
      (fun f => f.file = failedAt c o ∧ f.version = 3 ∧ f.current = zeroPoint v) ?_ f
      ⟨hfile, hversion, hcurrent⟩
    rintro f ⟨hfile, hversion, hcurrent⟩
    obtain ⟨g, hpass, hgfile, hgversion, hgcurrent⟩ : ∃ g, f.readPass = some g ∧
        g.file = failedAt c o ∧ g.version = 3 ∧ g.current = zeroPoint f.current.interrupt_vector :=
      ⟨_, readPass_failed hfile hversion, hfile, hversion, rfl⟩
    rw [hcurrent] at hgcurrent
    have hsame : (zeroPoint v).operatorEq g.current = true :=
      (SyncPoint.operatorEq_iff _ _).mpr (by rw [hgcurrent]; rfl)
    have heof : g.eof = false := by rw [SyncFile.eof, hgfile]; rfl
    exact ⟨g, by simp [hpass, hsame, heof], hgfile, hgversion, hgcurrent⟩
  rw [SyncFile.next, heof, hcurrent, hskip]
  rfl

/-- A failed reader reads a zero point first, if its point is another one. -/
theorem failed_next_zero (hfile : f.file = failedAt c o) (hversion : f.version = 3)
    (hne : f.current.operatorEq (zeroPoint f.current.interrupt_vector) = false) :
    ∃ g v, f.next = some g ∧ g.file = failedAt c o ∧ g.version = 3 ∧ g.current = zeroPoint v := by
  have hpass := readPass_failed hfile hversion
  have heof : f.eof = false := by rw [SyncFile.eof, hfile]; rfl
  have hskip : SyncFile.skipIdentical f.current f = some { f with
      current := zeroPoint f.current.interrupt_vector, position := (f.position + 1) % 2 ^ 64 } :=
    loop_leave (by simp [hpass, hne])
  refine ⟨_, f.current.interrupt_vector, by rw [SyncFile.next, heof, hskip]; rfl, ?_⟩
  rw [SyncFile.dropEvent_eq]
  exact ⟨hfile, hversion, rfl⟩

/-- When `seek_from_end` goes to no offset that the stream can be moved to, the second `next()` after it
does not end. -/
theorem Opened.seekFromEnd_hangs (h : Opened c rs f) {p : ℕ} (hp : ¬ FromEndInRange c rs p) :
    ∃ g, (f.seekFromEnd p).next = some g ∧ g.next = none := by
  have hne := h.record_size_ne
  obtain ⟨hon, hversion, rfl, -, -⟩ := h
  obtain ⟨o, hfile⟩ := hon.seekFromEnd_failed hp
  unfold SyncFile.seekFromEnd
  rw [if_neg hne]
  obtain ⟨g, v, hg, hgfile, hgversion, hcurrent⟩ :=
    failed_next_zero (f := { f with
        current := {}
        file := f.file.seekFromEnd (toInt64 ((f.record_size.toNat * ((p + 1) % 2 ^ 64)) % 2 ^ 64))
        position := ((f.file.seekFromEnd (toInt64 ((f.record_size.toNat * ((p + 1) % 2 ^ 64)) %
          2 ^ 64))).pos + (2 ^ 64 - HEADER_SIZE)) % 2 ^ 64 / f.record_size.toNat
        last_valid_position := p }) hfile hversion (operatorEq_default_zero 0)
  exact ⟨g, hg, failed_next_none hgfile hgversion hcurrent⟩

/-- With records of 256 bytes, going back by `2 ^ 55 + 1` of them is going `2 ^ 63 - 256` bytes beyond the
end, which is beyond the largest offset. -/
example : ¬ FromEndInRange (cutInTsc []) 256 (2 ^ 55) := by
  rw [FromEndInRange, InputStream.Seekable, length_cutInTsc]
  decide

/-- A seek to a position out of range makes its own call to `next()`, and the one after it does not
return. -/
theorem Opened.seek_hangs (h : Opened c rs f) {k : ℕ} (hk : ¬ InRange rs k) :
    ∃ g, f.seek k = some g ∧ g.next = none := by
  have hne := h.record_size_ne
  obtain ⟨hon, hversion, rfl, -, -⟩ := h
  obtain ⟨hk0, hoff⟩ := not_or.mp hk
  obtain ⟨o, hfile⟩ := hon.seek_neg (not_lt.mp hoff) (Nat.mod_lt _ (by norm_num))
  have hplaced : (f.placed k).file = failedAt c o := hfile
  obtain ⟨g, v, hg, hgfile, hgversion, hcurrent⟩ :=
    failed_next_zero hplaced hversion (operatorEq_default_zero 0)
  refine ⟨{ g with last_valid_position := if g.position = 0 then 0 else g.position - 1 }, ?_,
    failed_next_none hgfile hgversion hcurrent⟩
  rw [SyncFile.seek, if_neg hne, if_neg hk0]
  exact congrArg (Option.bind · _) hg

end

/-! ## Readers that no seek made fail -/

/-- The reader has the file open, and no seek has made it fail. -/
structure Alive (c : List UInt8) (rs : UInt32) (f : SyncFile) : Prop extends Opened c rs f where
  healthy : Healthy c f.file

section

variable {c : List UInt8} {rs : UInt32} {f g : SyncFile} {e : SyncEvent}

theorem alive_keptByNext (c : List UInt8) (rs : UInt32) : KeptByNext (Alive c rs) := by
  intro f g h hnext
  obtain ⟨k, hk, hopened, hhealthy⟩ := h.toOpened.next_total h.healthy
  rw [hnext] at hk
  cases hk
  exact ⟨hopened, hhealthy⟩

/-- A seek in range brings any reader of the file to an offset. -/
theorem Opened.seek_alive (h : Opened c rs f) {k : ℕ} (hk : InRange rs k)
    (hseek : f.seek k = some g) : Alive c rs g := by
  have hne := h.record_size_ne
  obtain ⟨hon, hversion, hrs, hle, hdata⟩ := h
  subst hrs
  unfold SyncFile.seek at hseek
  rw [if_neg hne] at hseek
  split_ifs at hseek with h0
  · cases hseek
    have hfile : f.file.seek HEADER_SIZE = openAt c HEADER_SIZE := hon.seek (by decide)
    exact ⟨⟨hon.seek_on _, hversion, rfl, hle, hdata⟩, .inr ⟨_, hfile⟩⟩
  · obtain ⟨k', hk', hseek⟩ := Option.bind_eq_some_iff.mp hseek
    have hfile := hon.seek (hk.resolve_left h0)
    have hplaced : Alive c f.record_size { f with
        position := k - 1
        file := f.file.seek ((HEADER_SIZE + f.record_size.toNat * (k - 1)) % 2 ^ 64)
        current := {} } := ⟨⟨hon.seek_on _, hversion, rfl, hle, hdata⟩, .inr ⟨_, hfile⟩⟩
    obtain ⟨⟨hon', hversion', hrs', hle', hdata'⟩, hhealthy⟩ := alive_keptByNext _ _ _ _ hplaced hk'
    cases hseek
    exact ⟨⟨hon', hversion', hrs', hle', hdata'⟩, hhealthy⟩

/-- `seek_from_end` in range does so too. -/
theorem Alive.seekFromEnd (h : Alive c rs f) {p : ℕ} (hp : FromEndInRange c rs p) :
    Alive c rs (f.seekFromEnd p) := by
  have hne := h.record_size_ne
  obtain ⟨⟨hon, hversion, hrs, hle, hdata⟩, -⟩ := h
  subst hrs
  have hfile := hon.seekFromEnd_seekable hp
  unfold SyncFile.seekFromEnd
  rw [if_neg hne]
  exact ⟨⟨hon.seekFromEnd_on _, hversion, rfl, hle, hdata⟩, .inr ⟨_, hfile⟩⟩

theorem Alive.keep (h : Alive c rs f) (e : SyncEvent) : Alive c rs { f with current_event := e } := by
  obtain ⟨⟨hon, hversion, hrs, hle, hdata⟩, hhealthy⟩ := h
  exact ⟨⟨hon, hversion, hrs, hle, hdata⟩, hhealthy⟩

/-- `current_event` keeps a reader alive when it goes back in range. -/
theorem Alive.currentEvent {o : Outcome SyncFile SyncEvent} (h : Alive c rs f)
    (hseeks : ∀ k, f.EventGoesBack k → InRange rs k) (ho : f.currentEvent = some o) :
    Alive c rs o.state := by
  obtain ⟨g, e, hstate, ⟨halive, -⟩ | ⟨k, h, hk, halive, hseek⟩⟩ :=
    (alive_keptByNext c rs).currentEvent h ho
  · rw [hstate]
    exact halive.keep e
  · rw [hstate]
    exact (halive.toOpened.seek_alive (hseeks k hk.goesBack) hseek).keep e

/-- So does the loop that goes back to the VMExit of an event. -/
theorem Alive.backToVmexit {q : ℕ} (h : Alive c rs f) (hseeks : ∀ k, f.SeeksBack q k → InRange rs k)
    (hg : f.backToVmexit q = some g) : Alive c rs g := by
  refine loop_inv (fun s => Alive c rs s.2 ∧ ∀ k, s.2.SeeksBack s.1 k → InRange rs k)
    (Alive c rs) ?_ ?_ (q, f) g ⟨h, hseeks⟩ hg
  · rintro ⟨q, f⟩ ⟨q', f'⟩ ⟨h, hseeks⟩ hstep
    dsimp only at hstep h hseeks ⊢
    split_ifs at hstep with hgo
    · obtain ⟨k, hk, hstep⟩ := Option.bind_eq_some_iff.mp hstep
      obtain ⟨rfl, rfl⟩ := Prod.mk.inj (Sum.inl.inj (Option.some.inj hstep))
      exact ⟨h.toOpened.seek_alive (hseeks _ (.here hgo)) hk,
        fun k' hk' => hseeks k' (.later hgo hk hk')⟩
    · cases hstep
  · rintro ⟨q, f⟩ g ⟨h, hseeks⟩ hstep
    dsimp only at hstep h hseeks ⊢
    split_ifs at hstep with hgo
    · obtain ⟨k, -, hstep⟩ := Option.bind_eq_some_iff.mp hstep
      cases hstep
    · cases hstep
      exact h

/-- So does `advance_to`. -/
theorem Alive.advanceTo {q : ℕ} {o : Outcome SyncFile Unit} (h : Alive c rs f)
    (hseeks : ∀ k, (Call.advanceTo q).Seeks f k → InRange rs k) (ho : f.advanceTo q = some o) :
    Alive c rs o.state := by
  obtain ⟨k, hk, ho⟩ := Option.bind_eq_some_iff.mp ho
  have hsought := h.toOpened.seek_alive (hseeks q (.inl rfl)) hk
  split_ifs at ho with h0 hvmenter
  · cases ho
    exact hsought
  · obtain ⟨m, hm, ho⟩ := Option.bind_eq_some_iff.mp ho
    have hback := hsought.backToVmexit
      (fun j hj => hseeks j (.inr ⟨h0, k, hk, hvmenter, .inl hj⟩)) hm
    obtain ⟨r, hr, ho⟩ := Option.bind_eq_some_iff.mp ho
    have hevent := hback.currentEvent
      (fun j hj => hseeks j (.inr ⟨h0, k, hk, hvmenter, .inr ⟨m, hm, hj⟩⟩)) hr
    cases r with
    | thrown err k =>
      cases ho
      exact hevent
    | returned e k =>
      cases ho
      exact hevent
  · cases ho
    exact hsought

/-- A call that makes no seek out of range keeps the reader alive. -/
theorem Alive.call {call : Call} {v : Value} (h : Alive c rs f) (hstays : call.StaysInFile c rs f)
    (hcall : call.run f = some (.returned v g)) : Alive c rs g := by
  obtain ⟨hseeks, hend⟩ := hstays
  -- Only the calls that seek need the condition.
  cases call with
  | next =>
    obtain ⟨k, hk, heq⟩ := Option.map_eq_some_iff.mp hcall
    cases heq
    exact alive_keptByNext c rs f _ h hk
  | currentEvent =>
    obtain ⟨o, ho, heq⟩ := Option.map_eq_some_iff.mp hcall
    have halive := h.currentEvent hseeks ho
    cases o with
    | thrown err k => cases heq
    | returned e k =>
      cases heq
      exact halive
  | advanceTo q =>
    obtain ⟨o, ho, heq⟩ := Option.map_eq_some_iff.mp hcall
    have halive := h.advanceTo hseeks ho
    cases o with
    | thrown err k => cases heq
    | returned u k =>
      cases heq
      exact halive
  | seekFromEnd p =>
    cases hcall
    exact h.seekFromEnd (hend p rfl)
  | validate =>
    cases hcall
    rw [validate_eq]
    exact ⟨⟨h.on, h.version, h.record_size, h.le_record_size, h.data⟩, h.healthy⟩
  | isValid => cases hcall; exact h
  | eof => cases hcall; exact h
  | current => cases hcall; exact h
  | position => cases hcall; exact h
  | lastValidPosition => cases hcall; exact h
  | syncPointCount => cases hcall; exact h

/-- In every run from a freshly loaded version-3 file whose calls make no seek out of range, `next()` ends
in every state that is reached. -/
theorem run_next_total (c : List UInt8) (data : Option (List UInt8)) (f₀ f : SyncFile)
    (h : Accepts c data f₀) (hrun : Run (fun g call => call.StaysInFile c f₀.record_size g) f₀ f) :
    ∃ g, f.next = some g := by
  have halive : Alive c f₀.record_size f := by
    induction hrun with
    | start =>
      obtain ⟨hopened, hfile, -⟩ := h.opened
      exact ⟨hopened, .inr ⟨_, hfile⟩⟩
    | step hrun hok hcall ih => exact ih.call hok hcall
  obtain ⟨g, hg, -⟩ := halive.toOpened.next_total halive.healthy
  exact ⟨g, hg⟩

/-- In a file that is only its header, one may go back from the end by four records of 256 bytes. -/
theorem run_next_total_header : ∃ f₀ f g, Accepts (cutInTsc []) none f₀ ∧
    Run (fun g call => call.StaysInFile (cutInTsc []) f₀.record_size g) f₀ f ∧
    f = f₀.seekFromEnd 3 ∧ f.next = some g := by
  obtain ⟨f₀, hf₀, hrs⟩ := cutInTsc_accepts []
  have hrun : Run (fun g call => call.StaysInFile (cutInTsc []) f₀.record_size g) f₀
      (f₀.seekFromEnd 3) := by
    have hstays : (Call.seekFromEnd 3).StaysInFile (cutInTsc []) f₀.record_size f₀ := by
      refine ⟨fun k hk => (show False from hk).elim, fun p hp => ?_⟩
      cases hp
      rw [FromEndInRange, hrs, length_cutInTsc]
      decide
    exact .step .start hstays rfl
  obtain ⟨g, hg⟩ := run_next_total (cutInTsc []) none f₀ (f₀.seekFromEnd 3) hf₀ hrun
  exact ⟨f₀, f₀.seekFromEnd 3, g, hf₀, hrun, rfl, hg⟩

/-- By five, and the second `next()` does not end. -/
theorem not_run_next_total : ¬ ∀ (c : List UInt8) (data : Option (List UInt8)) (f₀ f : SyncFile),
    Accepts c data f₀ → Run (fun _ _ => True) f₀ f → ∃ g, f.next = some g := by
  intro halways
  obtain ⟨f₀, hf₀, hrs⟩ := cutInTsc_accepts []
  obtain ⟨hopened, -⟩ := hf₀.opened
  obtain ⟨g, hg, hnone⟩ := hopened.seekFromEnd_hangs (p := 4) (by
    rw [FromEndInRange, hrs, length_cutInTsc]
    decide)
  have hback : Run (fun _ _ => True) f₀ (f₀.seekFromEnd 4) :=
    .step .start trivial (show Call.run f₀ (.seekFromEnd 4) = some (.returned .unit _) from rfl)
  have hrun : Run (fun _ _ => True) f₀ g := .step hback trivial (run_next hg)
  obtain ⟨k, hk⟩ := halways (cutInTsc []) none f₀ g hf₀ hrun
  rw [hnone] at hk
  cases hk

end

end RvnSyncPoint
