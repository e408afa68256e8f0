import RvnSyncPoint.Sync.History
import RvnSyncPoint.Sync.Kept
import RvnSyncPoint.Sync.Player

/-!
# Readers that play a log

A sync file reader with a recording and a data file open plays the log that the two make together:
`Plays` relates it to the player. What `next()` leaves of the file, the position and the current point is
known from its specification; what it leaves of the data file, and which vector the point at the end of
the file has, is carried along from pass to pass (`Carries`). The moves in the file keep the relation.
-/

namespace RvnSyncPoint

open LittleEndian Loop Refinement StreamableFile

/-- The record without its data offset. -/
def SyncRecord.bare (r : SyncRecord) : SyncRecord := { r with data_offset := 0 }

/-- The log that the recording is, where the data file in the state `D` delivers the blocks of the
records, and stays in such a state. -/
structure Delivers (R : Recording) (log : Log) (D : StreamableFile → Prop) : Prop where
  length : log.length = R.count
  entry : ∀ k, k < R.count → ∃ bs, log[k]? = some ((R.record (k + 1)).bare, bs) ∧
    ∀ d, D d → (dataAt (R.record (k + 1)).data_offset d).1 = bs ∧
      D (dataAt (R.record (k + 1)).data_offset d).2

/-- The reader `f` of the recording stands as the player `s` of the log. -/
structure Plays (R : Recording) (D : StreamableFile → Prop) (f : SyncFile) (s : Player) : Prop where
  reading : s.ended = false → Reading R f
  at_end : s.ended = true → Ended R f
  position : f.position = s.position
  current : f.current = s.current
  current_event : f.current_event = s.current_event
  last_valid_position : f.last_valid_position = s.last_valid_position
  data : D f.data_file
  vmexit : s.ended = false → s.current.isVmexit = true → 1 ≤ s.position

/-- What every `next()` carries along: the state of the data file, the vector that the current point will
have at the end of the log, and that no VMExit is current before the first record. -/
structure Carries (R : Recording) (log : Log) (D : StreamableFile → Prop) (v : UInt8) (f : SyncFile) :
    Prop where
  data : D f.data_file
  vector : Reading R f ∧ Log.lastVector f.current.interrupt_vector (log.drop f.position) = v ∨
    Ended R f ∧ f.current = zeroPoint v
  vmexit : f.eof = false → f.current.isVmexit = true → 1 ≤ f.position

section

variable {R : Recording} {log : Log} {D : StreamableFile → Prop} {v : UInt8} {f g : SyncFile}
  {s : Player} {e : SyncEvent} {x : ℕ × SyncPoint} {T : Tape}

/-! ## The log -/

theorem SyncRecord.bare_point (r : SyncRecord) (p : SyncPoint) (data : List SyncPointData) :
    r.bare.point p data = r.point p data := rfl

/-- The log from an entry on. -/
theorem Delivers.drop (h : Delivers R log D) {k : ℕ} (hk : k < R.count) :
    ∃ bs, log.drop k = ((R.record (k + 1)).bare, bs) :: log.drop (k + 1) ∧
      ∀ d, D d → (dataAt (R.record (k + 1)).data_offset d).1 = bs ∧
        D (dataAt (R.record (k + 1)).data_offset d).2 := by
  obtain ⟨bs, hentry, hdata⟩ := h.entry k hk
  obtain ⟨hlt, heq⟩ := List.getElem?_eq_some_iff.mp hentry
  exact ⟨bs, by rw [List.drop_eq_getElem_cons hlt, heq], hdata⟩

/-- What the reader will return is the tape of the log. -/
theorem Delivers.tapeOf (h : Delivers R log D) (n : ℕ) : ∀ p c d, R.count - p = n → D d →
    RvnSyncPoint.tapeOf p c d (R.recordsFrom p) = Log.tape p c (log.drop p) := by
  induction n with
  | zero =>
    intro p c d hn _
    have hnil : R.recordsFrom p = [] := by simp [Recording.recordsFrom, hn]
    have hdrop : log.drop p = [] := by
      apply List.drop_eq_nil_of_le
      rw [h.length]
      omega
    rw [hnil, hdrop]
    rfl
  | succ n ih =>
    intro p c d hn hd
    obtain ⟨bs, hdrop, hdata⟩ := h.drop (k := p) (by omega)
    obtain ⟨hblocks, hnext⟩ := hdata d hd
    rw [R.recordsFrom_lt (by omega), hdrop, RvnSyncPoint.tapeOf, Log.tape]
    dsimp only
    rw [hblocks, SyncRecord.bare_point, ih (p + 1) c _ (by omega) hnext,
      ih (p + 1) _ _ (by omega) hnext]

theorem Delivers.tape (h : Delivers R log D) (hd : D f.data_file) :
    R.tape f = Log.tape f.position f.current (log.drop f.position) :=
  h.tapeOf _ _ _ _ rfl hd

/-- Past the last record a seek reads the zero point, and stands before the position. -/
theorem seek_past_end (h : Attached R f) {k : ℕ} (hk : R.count ≤ k)
    (hoff : R.offset (k + 1 - 1) < 2 ^ 63) :
    ∃ g, f.seek (k + 1) = some g ∧ Ended R g ∧ g.position = k ∧ g.current = zeroPoint 0 ∧
      g.current_event = f.current_event.dropped ∧ g.last_valid_position = k - 1 ∧
      g.data_file = f.data_file := by
  have hplaced := placed_file h hoff
  have hend : R.content.length ≤ R.offset (k + 1 - 1) := by
    rw [← R.offset_count]
    exact R.offset_mono (by omega)
  have hpass := readPass_end hplaced h.version hend
  have hskip : SyncFile.skipIdentical (f.placed (k + 1)).current (f.placed (k + 1)) =
      some { f.placed (k + 1) with file := endAt R.content (R.offset (k + 1 - 1)),
                                   current := zeroPoint (f.placed (k + 1)).current.interrupt_vector } := by
    apply loop_leave
    rw [hpass]
    simp [SyncFile.eof]
  have heof : (f.placed (k + 1)).eof = false := by
    unfold SyncFile.eof
    rw [hplaced]
    rfl
  refine ⟨_, by rw [seek_eq h (by omega), SyncFile.next, heof, hskip]; rfl, ?_⟩
  rw [SyncFile.dropEvent_eq]
  refine ⟨⟨⟨endAt_on _ _, h.version, h.record_size, h.sync_point_count, h.data⟩, rfl, _, rfl⟩, rfl, rfl,
    rfl, ?_, rfl⟩
  show (if k = 0 then 0 else k - 1) = k - 1
  split_ifs <;> omega

/-! ## What `next()` carries along -/

theorem SyncRecord.point_vector (r : SyncRecord) (p : SyncPoint) (data : List SyncPointData) :
    (r.point p data).interrupt_vector = if isIrq r.type then irqByte r.type else p.interrupt_vector := by
  unfold SyncRecord.point SyncPoint.storeType
  split_ifs <;> rfl

theorem Carries.keep (h : Carries R log D v f) (e : SyncEvent) :
    Carries R log D v { f with current_event := e } :=
  ⟨h.data, h.vector.imp (fun h => ⟨⟨h.1.toAttached.update e f.last_valid_position, h.1.file,
    h.1.position_le⟩, h.2⟩) fun h => ⟨⟨h.1.toAttached.update e f.last_valid_position, h.1.eof,
    h.1.current⟩, h.2⟩, h.vmexit⟩

/-- The one step of it: a pass of the read loop. -/
theorem Carries.readPass (hD : Delivers R log D) (h : Carries R log D v f) (heof : f.eof = false)
    (hpass : f.readPass = some g) : Carries R log D v g := by
  rcases h.vector with ⟨hread, hv⟩ | ⟨hend, -⟩
  · rcases Nat.lt_or_ge f.position R.count with hlt | hge
    · -- A record is read, with its data.
      obtain ⟨k, hk, hkread, hpos, hcur, hdata, -, -⟩ := hread.readPass_lt hlt
      rw [hpass] at hk
      cases hk
      obtain ⟨bs, hdrop, hdeliver⟩ := hD.drop hlt
      refine ⟨hdata ▸ (hdeliver _ h.data).2, .inl ⟨hkread, ?_⟩, fun _ _ => by omega⟩
      rw [← hv, hdrop, hcur, hpos, SyncRecord.point_vector]
      rfl
    · have hcount : f.position = R.count := Nat.le_antisymm hread.position_le hge
      have hend : R.content.length ≤ R.offset f.position := by rw [hcount, R.offset_count]
      have hzero := readPass_end hread.file hread.version hend
      rw [hpass] at hzero
      cases hzero
      have hnil : log.drop f.position = [] := by
        apply List.drop_eq_nil_of_le
        rw [hD.length]
        exact hge
      rw [hnil] at hv
      refine ⟨h.data, .inr ⟨⟨⟨endAt_on _ _, hread.version, hread.record_size, hread.sync_point_count,
        hread.data⟩, rfl, _, rfl⟩, ?_⟩, nofun⟩
      rw [← hv]
      rfl
  · rw [hend.eof] at heof
    cases heof

/-- So `next()` carries it along. -/
theorem carries_keptByNext (hD : Delivers R log D) : KeptByNext (Carries R log D v) :=
  keptByNext_of_readPass (fun _ _ h heof hpass => h.readPass hD heof hpass) fun f h => by
    rw [SyncFile.dropEvent_eq]
    exact h.keep _

/-! ## Where the reader stands -/

theorem Plays.attached (h : Plays R D f s) : Attached R f := by
  cases hs : s.ended with
  | false => exact (h.reading hs).toAttached
  | true => exact (h.at_end hs).toAttached

theorem Plays.eof (h : Plays R D f s) : f.eof = s.ended := by
  cases hs : s.ended with
  | false => exact (h.reading hs).eof
  | true => exact (h.at_end hs).eof

/-- Both remember an event. -/
theorem Plays.keep (h : Plays R D f s) (e : SyncEvent) :
    Plays R D { f with current_event := e } { s with current_event := e } := by
  refine ⟨fun hs => ?_, fun hs => ?_, h.position, h.current, rfl, h.last_valid_position, h.data, h.vmexit⟩
  · have hread := h.reading hs
    exact ⟨hread.toAttached.update e f.last_valid_position, hread.file, hread.position_le⟩
  · have hend := h.at_end hs
    exact ⟨hend.toAttached.update e f.last_valid_position, hend.eof, hend.current⟩

/-- The tape of the reader is that of the player. -/
theorem Plays.tape (hD : Delivers R log D) (h : Plays R D f s) : R.tape f = s.rest log := by
  rw [hD.tape h.data, h.position, h.current]
  rfl

variable (log) in
/-- What the player carries along, the reader does. -/
theorem Plays.carries (h : Plays R D f s) (hs : s.ended = false) :
    Carries R log D (Log.lastVector s.current.interrupt_vector (log.drop s.position)) f :=
  ⟨h.data, .inl ⟨h.reading hs, by rw [h.position, h.current]⟩, fun _ hv => by
    rw [h.position]
    exact h.vmexit hs (h.current ▸ hv)⟩

theorem Carries.attached (h : Carries R log D v f) : Attached R f :=
  h.vector.elim (fun h => h.1.toAttached) fun h => h.1.toAttached

/-- A reader on a point of the tape plays the player on it. -/
theorem Carries.plays_on (hcarries : Carries R log D v g) (hafter : R.After g (x :: T))
    (hs : s.ended = false) (hevent : g.current_event = s.current_event)
    (hlast : g.last_valid_position = s.last_valid_position) : Plays R D g (s.on x) := by
  obtain ⟨hread, hpos, hcur, -⟩ := hafter
  refine ⟨fun _ => hread, fun h => absurd (hs.symm.trans h) nofun, hpos, hcur, hevent, hlast,
    hcarries.data, fun _ hv => ?_⟩
  have hle := hcarries.vmexit hread.eof (by rw [hcur]; exact hv)
  rwa [hpos] at hle

/-- A reader that has met the end of the file plays the player at the end of the log. -/
theorem Carries.plays_atEnd (hD : Delivers R log D)
    (hcarries : Carries R log D (Log.lastVector s.current.interrupt_vector (log.drop s.position)) g)
    (hafter : R.After g []) (hevent : g.current_event = s.current_event)
    (hlast : g.last_valid_position = s.last_valid_position) : Plays R D g (s.atEnd log) := by
  have hcurrent : g.current = (s.atEnd log).current := by
    rcases hcarries.vector with ⟨hread, -⟩ | ⟨-, hcurrent⟩
    · have heof := hafter.1.eof
      rw [hread.eof] at heof
      cases heof
    · exact hcurrent
  exact ⟨nofun, fun _ => hafter.1, hafter.2.trans hD.length.symm, hcurrent, hevent, hlast, hcarries.data,
    nofun⟩

/-! ## Moving -/

/-- `next()`. -/
theorem Plays.next (hD : Delivers R log D) (h : Plays R D f s) :
    ∃ g, f.next = some g ∧ Plays R D g (s.next log) := by
  cases hs : s.ended with
  | true =>
    refine ⟨f, (h.at_end hs).next, ?_⟩
    rw [Player.next, if_pos hs]
    exact h
  | false =>
    obtain ⟨g, hg, hafter, hevent, hlast⟩ := next_reading (h.reading hs)
    have hcarries := carries_keptByNext hD f g (h.carries log hs) hg
    have hevent : g.current_event = s.dropEvent.current_event := by rw [hevent, h.current_event]; rfl
    have hlast := hlast.trans h.last_valid_position
    refine ⟨g, hg, ?_⟩
    rw [h.tape hD] at hafter
    rw [Player.next, if_neg (by simp [hs])]
    cases hrest : s.rest log with
    | nil =>
      rw [hrest] at hafter
      exact Carries.plays_atEnd (s := s.dropEvent) hD hcarries hafter hevent hlast
    | cons x T =>
      rw [hrest] at hafter
      exact Carries.plays_on (s := s.dropEvent) hcarries hafter hs hevent hlast

/-- A seek of a reader that has the recording open, to an entry or past the end. -/
theorem seek_plays (hD : Delivers R log D) (h : Attached R f) (hd : D f.data_file)
    (hevent : f.current_event = s.current_event) {q : ℕ} (hq : q ≤ log.length ∨ q ≤ 2 ^ 30) :
    ∃ g, f.seek q = some g ∧ Plays R D g (s.seek log q) := by
  cases q with
  | zero =>
    obtain ⟨g, hg, hread, hpos, hcur, hev, hlast, hdata⟩ := seek_zero h
    exact ⟨g, hg, fun _ => hread, nofun, hpos, hcur, hev.trans hevent, hlast, hdata ▸ hd,
      fun _ hv => by cases hv⟩
  | succ k =>
    rw [hD.length] at hq
    have hdrop : f.current_event.dropped = s.current_event.dropped := by rw [hevent]
    rcases Nat.lt_or_ge k R.count with hlt | hge
    · obtain ⟨g, hg, hread, hpos, hcur, hdata, hev, hlast⟩ := seek_record h (Nat.le_add_left 1 k) hlt
      obtain ⟨bs, hentry, hdeliver⟩ := hD.entry k hlt
      obtain ⟨hblocks, hkept⟩ := hdeliver _ hd
      rw [hblocks] at hcur
      refine ⟨g, hg, ?_⟩
      rw [Player.seek, hentry]
      exact ⟨fun _ => hread, nofun, hpos, hcur, hev.trans hdrop, hlast, hdata ▸ hkept,
        fun _ _ => Nat.le_add_left 1 k⟩
    · -- Past the end, the zero point is read.
      have hrs : R.record_size.toNat < 2 ^ 32 := R.record_size.toNat_lt
      have hoff : R.offset (k + 1 - 1) < 2 ^ 63 := by
        have hk : k < 2 ^ 30 := by omega
        have hmul : R.record_size.toNat * k ≤ 2 ^ 32 * 2 ^ 30 := Nat.mul_le_mul hrs.le hk.le
        unfold Recording.offset HEADER_SIZE
        rw [Nat.add_sub_cancel]
        omega
      obtain ⟨g, hg, hend, hpos, hrest⟩ := seek_past_end h hge hoff
      have hnone : log[k]? = none := List.getElem?_eq_none (by rw [hD.length]; exact hge)
      refine ⟨g, hg, ?_⟩
      rw [Player.seek, hnone]
      exact ⟨nofun, fun _ => hend, hpos, hrest.1, hrest.2.1.trans hdrop, hrest.2.2.1,
        hrest.2.2.2 ▸ hd, nofun⟩

/-- `seek_from_end()`. -/
theorem Plays.seekFromEnd (hD : Delivers R log D) (h : Plays R D f s) {p : ℕ} (hp : p < log.length) :
    Plays R D (f.seekFromEnd p) (s.seekFromEnd log p) := by
  rw [hD.length] at hp
  obtain ⟨hread, hpos, hcur, hev, hlast, hdata⟩ := seekFromEnd_reading h.attached hp
  rw [← hD.length] at hpos
  exact ⟨fun _ => hread, nofun, hpos, hcur, hev.trans h.current_event, hlast, hdata ▸ h.data,
    fun _ hv => by cases hv⟩

/-- `validate()`. -/
theorem Plays.validate (h : Plays R D f s) : Plays R D f.validate s.validate := by
  rw [validate_eq]
  refine ⟨fun hs => ?_, fun hs => ?_, h.position, h.current, h.current_event, h.position, h.data, h.vmexit⟩
  · have hread := h.reading hs
    exact ⟨hread.toAttached.update f.current_event f.position, hread.file, hread.position_le⟩
  · have hend := h.at_end hs
    exact ⟨hend.toAttached.update f.current_event f.position, hend.eof, hend.current⟩

end

end RvnSyncPoint
